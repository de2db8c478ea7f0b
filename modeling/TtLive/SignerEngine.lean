import TtLive.Ledger
import TtLive.ProgLogic
import TtLive.QuotedScripts
import TtLive.WsClient

/-!
# `qjs_signer.cpp`: the JavaScript engine of the signer

A signer starts its engine in the first call that needs it. `ensure_initialized` is a program over what is not the
signer's: QuickJS and the files of `js_dir`. An attempt that throws leaves what it allocated in `rt` and `ctx`, where
the next attempt overwrites it. `Engine` follows a run: the ledgers of the two pointers, and the scripts that were
evaluated in the context that is held.
-/

namespace TtLive.SignerEngine
open Prog QuickJsSigner
open Ledger (Holder balance)

/-! ### The signer -/

/-- The scripts that are evaluated. -/
inductive Script
  | stderr_stub
  | hybrid_fake_dom
  | global_alias
  | sdk (name : String)
  | drain_timeouts
  | acrawler_init
  | set_cookies
  | sign
deriving DecidableEq

def Script.label : Script → String
  | .stderr_stub => "stderr-stub"
  | .hybrid_fake_dom => "hybrid-fake-dom.js"
  | .global_alias => "global-alias"
  | .sdk name => name
  | .drain_timeouts => "drain-timeouts"
  | .acrawler_init => "acrawler-init"
  | .set_cookies => "set-cookies"
  | .sign => "sign"

/-- What a signer asks of QuickJS and of the file system; `delete_impl` is its end. -/
inductive Act
  | new_runtime
  | new_context
  | open_file (path : String)
  | eval (script : Script) (code : Bytes)
  | execute_pending_job
  | delete_impl

/-- A pointer is null or not, a stream is open on some text or not. The texts of a result and of an exception are null
when `JS_ToCString` fails. -/
@[reducible] def Act.Result : Act → Type
  | .new_runtime => Bool
  | .new_context => Bool
  | .open_file _ => Option Bytes
  | .eval _ _ => Except (Option Exn) (Option Bytes)
  | .execute_pending_job => Int
  | .delete_impl => Unit

abbrev Code := Prog Act Act.Result
abbrev Throwing := ExceptT Exn Code

def call (a : Act) : Throwing a.Result := ExceptT.lift (perform a)

def eval_value (script : Script) (code : Bytes) : Throwing (Option Bytes) := do
  match ← call (.eval script code) with
  | .ok s => pure s
  | .error s => throw ("QuickJsSigner " ++ script.label ++ ": " ++ s.getD "(unknown JS exception)")

def eval (script : Script) (code : Bytes) : Throwing Unit := do
  let _ ← eval_value script code

def eval_str (script : Script) (code : Bytes) : Throwing Bytes := do
  return (← eval_value script code).getD []

def pending_jobs : Nat → Code Unit
  | 0 => pure ()
  | left + 1 => do
    if (← perform .execute_pending_job) ≤ 0 then pure () else pending_jobs left

def drain_code : Bytes :=
  lit "if(typeof globalThis.__drainDeferredTimeouts==='function')globalThis.__drainDeferredTimeouts();"

def drain : Code Unit := do
  pending_jobs 40
  -- throw_on_exc=false
  let _ ← perform (.eval .drain_timeouts drain_code)

def read_file (path : String) : Throwing Bytes := do
  match ← call (.open_file path) with
  | some s => pure s
  | none => throw ("QuickJsSigner: cannot open " ++ path)

def kSdkFiles : List String :=
  ["dw-index.js", "browser.sg.js", "webmssdk.js", "webmssdk_ex.js", "secsdk-lastest.umd.js"]

/-- One round of the loop over `kSdkFiles`. -/
def load_sdk (js_dir name : String) : Throwing Unit := do
  let path := js_dir ++ "/" ++ name
  if (← call (.open_file path)).isNone then pure () -- tolerate optional files
  else eval (.sdk name) (← read_file path)

def acrawler_init_code : Bytes :=
  lit "(function()\x7bvar ac=globalThis.byted_acrawler||" ++
  lit "(globalThis.window&&globalThis.window.byted_acrawler);" ++
  lit "if(!ac)throw new Error('byted_acrawler not found');" ++
  lit "ac.init(\x7baid:1988,dfp:false,boe:false,intercept:true," ++
  lit "enablePathList:['/webcast.*','/api/','/passport/','/ttwid/','/aweme/','/im/']\x7d);" ++
  lit "if(ac.setUserMode)ac.setUserMode('0x204');" ++
  lit "if(!globalThis.byted_acrawler&&globalThis.window&&globalThis.window.byted_acrawler)" ++
  lit "globalThis.byted_acrawler=globalThis.window.byted_acrawler;\x7d)();"

/-- The scripts of a start, in the context that was made for it. -/
def load (js_dir : String) : Throwing Unit := do
  eval .stderr_stub (lit "globalThis.__stderr=\x7bputs:function(s)\x7b\x7d\x7d;")
  eval .hybrid_fake_dom (← read_file (js_dir ++ "/hybrid-fake-dom.js"))
  eval .global_alias (lit "globalThis.global=globalThis;")
  forM kSdkFiles (load_sdk js_dir)
  ExceptT.lift drain
  eval .acrawler_init acrawler_init_code
  ExceptT.lift drain

def ensure_initialized (js_dir : String) (initialized_ : Bool) : Throwing Unit := do
  if initialized_ then pure ()
  else
    if !(← call .new_runtime) then throw "QuickJsSigner: JS_NewRuntime failed"
    if !(← call .new_context) then throw "QuickJsSigner: JS_NewContext failed"
    load js_dir

/-- What a call returns or throws, and `initialized_` after it. -/
def set_cookies (js_dir : String) (initialized_ : Bool) (cookie_header : Bytes) : Code (Except Exn Unit × Bool) := do
  match ← (ensure_initialized js_dir initialized_).run with
  | .error e => return (.error e, initialized_)
  | .ok () =>
    -- throw_on_exc=false
    let _ ← perform (.eval .set_cookies (set_cookies_script cookie_header))
    return (.ok (), true)

def signed_url (url : Bytes) : Throwing Bytes := do
  let signed_url ← eval_str .sign (sign_script url)
  if signed_url = [] then throw "QuickJsSigner: signing produced an empty URL"
  return signed_url

def sign (js_dir : String) (initialized_ : Bool) (url : Bytes) : Code (Except Exn Bytes × Bool) := do
  match ← (ensure_initialized js_dir initialized_).run with
  | .error e => return (.error e, initialized_)
  | .ok () => return (← (signed_url url).run, true)

inductive Call
  | set_cookies (cookie_header : Bytes)
  | sign (url : Bytes)

def Call.run (js_dir : String) (initialized_ : Bool) : Call → Code Bool
  | .set_cookies cookie_header => do return (← SignerEngine.set_cookies js_dir initialized_ cookie_header).2
  | .sign url => do return (← SignerEngine.sign js_dir initialized_ url).2

/-- The calls on a signer, and its end. -/
def life (js_dir : String) (calls : List Call) : Code Unit := do
  let _ ← calls.foldlM (Call.run js_dir) false
  perform Act.delete_impl

/-! ### What a run has done so far -/

structure Engine where
  rt : Holder := {}
  ctx : Holder := {}
  /-- Whether each `JS_NewRuntime`, and each `JS_NewContext`, succeeded. -/
  runtimes : List Bool := []
  contexts : List Bool := []
  /-- What was evaluated in the last context, and whether it returned. -/
  scripts : List (Script × Bool) := []

namespace Engine

def evaluated (g : Engine) (script : Script) (returned : Bool) : Engine :=
  { g with ctx := g.ctx.use, scripts := g.scripts ++ [(script, returned)] }

def next (g : Engine) : (a : Act) → a.Result → Engine
  | .new_runtime, ok => { g with rt := if ok then g.rt.take else g.rt.forget, runtimes := g.runtimes ++ [ok] }
  | .new_context, ok => { g with
      rt := g.rt.use, ctx := if ok then g.ctx.take else g.ctx.forget, contexts := g.contexts ++ [ok], scripts := [] }
  | .open_file _, _ => g
  | .eval script _, .ok _ => g.evaluated script true
  | .eval script _, .error _ => g.evaluated script false
  | .execute_pending_job, _ => { g with rt := g.rt.use }
  | .delete_impl, _ => { g with ctx := g.ctx.release, rt := g.rt.release }

end Engine

/-! ### The order of the scripts -/

/-- The scripts of a start that finds the files `sdk`. -/
def startup (sdk : List String) : List Script :=
  [.stderr_stub, .hybrid_fake_dom, .global_alias] ++ sdk.map .sdk ++ [.drain_timeouts, .acrawler_init, .drain_timeouts]

/-- Nothing that was evaluated has thrown; a drain may throw. -/
def Returned (scripts : List (Script × Bool)) : Prop := ∀ e ∈ scripts, e.1 ≠ .drain_timeouts → e.2 = true

/-- `script` is the next one of a start in which nothing has thrown. -/
def Starting (scripts : List (Script × Bool)) (script : Script) : Prop :=
  ∃ sdk, sdk.Sublist kSdkFiles ∧ scripts.map Prod.fst ++ [script] <+: startup sdk ∧ Returned scripts

def Script.OfCall (script : Script) : Prop := script = .set_cookies ∨ script = .sign

/-- A start has been carried out to its end, and only calls came after it. -/
def Ready (scripts : List (Script × Bool)) : Prop :=
  ∃ sdk started later, sdk.Sublist kSdkFiles ∧ scripts = started ++ later ∧ started.map Prod.fst = startup sdk ∧
    Returned started ∧ ∀ e ∈ later, e.1.OfCall

/-- What a signer may do in the state it is in. -/
def Allowed (g : Engine) : Act → Prop
  | .new_runtime => (.acrawler_init, true) ∉ g.scripts
  | .new_context => g.rt.slot.isSome
  | .open_file _ => True
  | .eval script _ =>
    g.ctx.slot.isSome ∧ (script.OfCall → Ready g.scripts) ∧ (¬ script.OfCall → Starting g.scripts script)
  | .execute_pending_job => g.rt.slot.isSome ∧ ∀ e ∈ g.scripts, ¬ e.1.OfCall
  | .delete_impl => True

end TtLive.SignerEngine
