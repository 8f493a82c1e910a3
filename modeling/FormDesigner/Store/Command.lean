import FormDesigner.Store.Edits
import FormDesigner.Store.Restore

/-!
# Commands

Everything that can be asked of a store has a name and takes a fixed number of arguments, the last of
which may be left out where null stands for it.
-/

namespace FormDesigner

inductive Command where
  | addField (field : Value)
  | addChild (target field : Value)
  | updateField (id patch : Value)
  | removeField (id : Value)
  | moveField (source target : Value)
  | moveChild (owner source target : Value)
  | copy (id : Value)
  | paste (target : Value)
  | undo
  | redo
  | importSchema (document : Value)
  | select (id : Value)
  | restore
  | selectedField
  | getField (id : Value)
  | existingKeys
  | lastChange
  | exportText
  | state

/-- What a command answers. -/
inductive Reply where
  | outcome (r : Outcome)
  | value (v : Value)

def Reply.toValue : Reply → Value
  | .outcome r => r.toValue
  | .value v => v

namespace Command

/-- Names that belong to a store but are no commands on their own. -/
def nouns : List String :=
  ["schema", "fields", "history", "clipboard", "storage", "selected_id", "can_undo", "can_redo",
    "subscribe", "from_storage", "from_config"]

def names : List String :=
  ["add_field", "add_child", "update_field", "remove_field", "move_field", "move_child", "copy",
    "paste", "undo", "redo", "import_schema", "select", "restore", "selected_field", "get_field",
    "existing_keys", "describe_last_change", "export_schema", "to_state"]

/-- The command with a name, given the arguments that it takes. -/
def parse (name : String) (args : List Value) : Except Failure Command :=
  match name, args with
  | "add_field", [f] => .ok (.addField f)
  | "add_child", [s, f] => .ok (.addChild s f)
  | "update_field", [id, p] => .ok (.updateField id p)
  | "remove_field", [id] => .ok (.removeField id)
  | "move_field", [i, j] => .ok (.moveField i j)
  | "move_child", [s, i, j] => .ok (.moveChild s i j)
  | "copy", [id] => .ok (.copy id)
  | "paste", [] => .ok (.paste .null)
  | "paste", [s] => .ok (.paste s)
  | "undo", [] => .ok .undo
  | "redo", [] => .ok .redo
  | "import_schema", [d] => .ok (.importSchema d)
  | "select", [] => .ok (.select .null)
  | "select", [id] => .ok (.select id)
  | "restore", [] => .ok .restore
  | "selected_field", [] => .ok .selectedField
  | "get_field", [id] => .ok (.getField id)
  | "existing_keys", [] => .ok .existingKeys
  | "describe_last_change", [] => .ok .lastChange
  | "export_schema", [] => .ok .exportText
  | "to_state", [] => .ok .state
  | name, _ =>
    if names.contains name || nouns.contains name then .error .wrongKind else .error .noMember

def run : Command → Editing Reply
  | .addField f => .outcome <$> Editing.addField f
  | .addChild s f => .outcome <$> Editing.addChild s f
  | .updateField id p => .outcome <$> Editing.updateField id p
  | .removeField id => .outcome <$> Editing.removeField id
  | .moveField i j => .outcome <$> Editing.moveField i j
  | .moveChild s i j => .outcome <$> Editing.moveChild s i j
  | .copy id => .outcome <$> Editing.copy id
  | .paste s => .outcome <$> Editing.paste s
  | .undo => .outcome <$> Editing.undo
  | .redo => .outcome <$> Editing.redo
  | .importSchema d => .outcome <$> Editing.importSchema d
  | .select id => do
    Editing.select id
    return .value .null
  | .restore => do return .value (.bool (← Editing.restore))
  | .selectedField => do return .value (.ofOption (← get).selectedField?)
  | .getField id => do return .value (.ofOption (((← get).find? id).map Field.value))
  | .existingKeys => do return .value (.list (← get).keys)
  | .lastChange => do return .value (.ofTexts (← Work.ofExcept (← get).lastChange))
  | .exportText => do return .value (.text (← Work.ofExcept (← get).exportText))
  | .state => do return .value (← Work.ofExcept (← get).state)

end Command

end FormDesigner
