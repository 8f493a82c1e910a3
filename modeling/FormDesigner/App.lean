import FormDesigner.Designer.Page
import FormDesigner.Preview.Page
import FormDesigner.Text.Letter

/-!
# The application

The application begins a session from the configuration and draws one of its pages, with a header above
and with the choice of the page and a few quick actions at the side.
-/

namespace FormDesigner

namespace App

open Drawing Element

def name : String := "Schema Studio"

/-- Settings that are read before anything is drawn are also logged, so they must be writable. -/
def logged (part setting : String) (fallback : Value) : Drawing Unit := do
  let _ ← ofExcept (← Drawing.setting part setting fallback).plain

/-- What comes before the page: its title and its layout. -/
def prepare : Drawing Unit := do
  logged "logging" "level" (.text "INFO")
  let title ← setting "ui" "page_title" (.text name)
  logged "app" "name" (.text name)
  logged "app" "version" (.text "Unknown")
  add ⟨"set_page_config", [], [("page_title", title), ("page_icon", .text "🧩"),
    ("layout", .text "wide"), ("initial_sidebar_state", .text "expanded")]⟩

def startSetting : Report.Setting where
  context := "application startup"
  showDetails := true
  trace := "<traceback>"

/-- Begins the session. A session that cannot begin for a reason of its own is the end of the page. -/
def start : Drawing Unit := do
  let config ← ofExcept (← get).session.config
  match ← sit (Work.attempt (Sitting.start config)) with
  | .ok _ => return ()
  | .error e =>
    if e.isOwn then
      report e startSetting
      halt
    else throw (.failure e)

def currentPage : Drawing Value := return (← get).session.currentPage

def drawHeader : Drawing Unit := do
  let appName ← ofExcept (← setting "app" "name" (.text name)).plain
  add (.title ("🧩 " ++ appName))
  let store ← store
  add (.evenColumns 3)
  add (.metric "Fields" (.int store.keys.length))
  add (.metric "Undo Steps" (.int store.history.past.length))
  match ← currentPage with
  | .text page => add (.metric "Current View" (.text (Text.title page)))
  | _ => throw (.failure .noMember)

def pageLabel (page : String) : String :=
  if page = "designer" then "🛠️ Designer" else "👀 Preview"

/-- The choice of the page. A page that there is not has no place among the others. -/
def drawChoice : Drawing Unit := do
  let current ← currentPage
  match Session.pages.findIdx? fun p => current.equals (.text p) with
  | none =>
    throw (.failure (.fault .value ((← ofExcept current.quoted) ++ " is not in list")))
  | some index =>
    let page ← choice (control "radio" "Select View:"
      [("options", .list (Session.pages.map .text)),
        ("labels", .list (Session.pages.map fun p => .text (pageLabel p))),
        ("index", .int index)])
    if !page.equals current then
      sit (Sitting.turnTo page)
      redraw

def drawQuickActions : Drawing Unit := do
  add .divider
  add (.header "Quick Actions")
  if ← button (control "button" "🔄 Reset Preview"
      [("help", .text "Clear all values entered in the preview form")]) then
    sit (modify Session.withoutPreview)
    redraw
  if ← button (control "button" "🧹 Restart Session"
      [("help", .text "Reload the designer from saved state")]) then
    sit Sitting.reset
    redraw

def drawSidebar : Drawing Unit := do
  add ⟨"header", [← setting "ui" "sidebar_title" (.text "Navigation")], []⟩
  drawChoice
  drawQuickActions
  if (← setting "app" "debug" (.bool false)).isTrue then
    add (.expander "🐞 Session")
    add (.json (← sit Sitting.info))

def drawContent : Drawing Unit := do
  let page ← currentPage
  if page.equals (.text "designer") then Designer.draw
  else if page.equals (.text "preview") then Preview.draw
  else add (.error ("Unknown page: " ++ (← ofExcept page.plain)))

/-- Draws the whole page. -/
def draw : Drawing Unit := do
  prepare
  start
  drawHeader
  drawSidebar
  drawContent

end App

end FormDesigner
