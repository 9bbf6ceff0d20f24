import PluginConsole.Localization
import PluginConsole.Registry.Entry
import PluginConsole.Scenario.Step

/-!
# The cast of a scenario

Components and factories that do what a scenario lays down: they tell of every call, act
on cues, and then give a fixed answer. Two simpler kinds only count their calls. The
messages of a scenario may be missing for a module, or panic.
-/

namespace PluginConsole.Scenario

/-! ## Cues -/

inductive Deed where
  /-- Ends the call with a fault. Where a call cannot fail, it only ends the cues. -/
  | fail (f : Fault)
  | panic (payload : Option String)
  /-- Does a step of the scenario in the middle of the call. -/
  | act (s : Step)
  deriving Inhabited

structure Cue where
  /-- Only on the call of this number; else on every call. -/
  on : Option Nat
  deed : Deed
  deriving Inhabited

def Cue.isDue (c : Cue) (call : Nat) : Bool :=
  c.on.all (· == call)

/-! ## Components -/

/-- What a registry asks of a component. -/
inductive Call where
  | title
  | category
  | init
  | destroy
  | activate
  | deactivate
  deriving DecidableEq, Inhabited

namespace Call

def all : List Call := [.title, .category, .init, .destroy, .activate, .deactivate]

def name : Call → String
  | .title => "title"
  | .category => "category"
  | .init => "init"
  | .destroy => "destroy"
  | .activate => "activate"
  | .deactivate => "deactivate"

end Call

/-- A plugin that counts its calls and remembers how it was initialized. -/
structure Mock where
  label : String
  title : String
  category : Option String
  activatable : Bool
  failsInit : Bool
  failsActivation : Bool
  panicsOnTitle : Bool
  deriving Inhabited

/-- A plugin that tells of its calls and acts on cues. -/
structure Player where
  label : String
  title : String
  category : Option String
  activatable : Bool
  cues : List (Call × List Cue)
  deriving Inhabited

inductive Role where
  | mock (m : Mock)
  /-- A request handler that counts its calls. -/
  | mockHandler
  | player (p : Player)
  /-- A request handler that tells of its calls and acts on cues. -/
  | handler (cues : List (Call × List Cue))
  /-- A service of no use to a console. -/
  | other
  deriving Inhabited

namespace Role

def label : Role → String
  | .mock m => m.label
  | .player p => p.label
  | _ => ""

def isActivatable : Role → Bool
  | .mock m => m.activatable || m.failsActivation
  | .player p => p.activatable
  | _ => false

def isPlugin : Role → Bool
  | .mock _ | .player _ => true
  | _ => false

def title : Role → String
  | .mock m => m.title
  | .player p => p.title
  | _ => ""

def category : Role → Option String
  | .mock m => m.category
  | .player p => p.category
  | _ => none

def cues (r : Role) (call : Call) : List Cue :=
  match r with
  | .player p => (p.cues.lookup call).getD []
  | .handler cues => (cues.lookup call).getD []
  | _ => []

def isTold : Role → Bool
  | .player _ | .handler _ => true
  | _ => false

def providerName (name : String) : Role → String
  | .mock _ => "webdeck_test_utils::mock_plugin::MockPlugin"
  | .mockHandler => "webdeck_test_utils::mock_handler::MockHandler"
  | _ => name

def serviceObject (name : String) : Role → ServiceObject
  | .mock _ | .player _ => .plugin (.named name)
  | .mockHandler | .handler _ => .handler (.named name)
  | .other => .other

def mockFailure (m : Mock) : Call → Option Failure
  | .title =>
    if m.panicsOnTitle then
      some (.panic (some s!"mock plugin `{m.label}` refuses to tell its title"))
    else none
  | .init => if m.failsInit then some (.fault (.init m.label "mock init failure")) else none
  | .activate =>
    if m.failsActivation then some (.fault (.internal "mock activation failure")) else none
  | _ => none

end Role

/-! ## Factories -/

structure Maker where
  /-- The component of the scenario that is given out every time, if it is a plugin. -/
  shared : Option String
  /-- What is made anew in every call otherwise. -/
  fresh : Option Role
  cues : List Cue
  deriving Inhabited

/-! ## Messages -/

structure Sheet where
  origin : String
  locale : String
  table : Dict String
  deriving Inhabited

structure MessageBook where
  sheets : List Sheet
  /-- Modules whose messages cannot be had. -/
  failing : List String
  /-- Modules whose messages panic. -/
  panicking : List String
  deriving Inhabited

namespace MessageBook

/-- Sheets for the same module and locale add up, and the later one wins. -/
def table (b : MessageBook) (origin locale : String) : Dict String :=
  (b.sheets.filter fun s => s.origin == origin && s.locale == locale).foldl
    (fun t s => Dict.overlay t s.table) []

def answer (b : MessageBook) (origin locale : String) : Outcome (Dict String) :=
  if b.panicking.contains origin then .error (.panic (some "localizer panicked"))
  else if b.failing.contains origin then
    .error (.fault (.localization origin locale "mock localizer failure"))
  else .ok (b.table origin locale)

/-- The number of calls that are counted once this one is made. A panic is not counted. -/
def countAfter (b : MessageBook) (origin : String) (calls : Nat) : Nat :=
  if b.panicking.contains origin then calls else calls + 1

/-- The messages, counting the calls in a state. -/
def localizer {σ : Type} (b : MessageBook) (count : (Nat → Nat) → σ → σ) :
    Localizer (StateM σ) := fun origin locale s =>
  (b.answer origin locale, count (b.countAfter origin) s)

end MessageBook

end PluginConsole.Scenario
