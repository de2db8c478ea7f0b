import TtLive.OrdinaryObject

/-!
# `hybrid-fake-dom.js`: the window

`windowProxy` answers from three objects: `nativeBuiltins`, which a sweep fills with the globals that exist when the
script runs, the target of the proxy, which holds what the SDK sets, and `browserAPIs`. The engine's globals and
prototypes are a parameter; only string names are modelled.
-/

namespace TtLive.fake_dom
open OrdinaryObject

abbrev PropName := String

/-- A value; functions and objects are told apart by what they are. -/
inductive Value
  | undefined
  | null
  | primitive (text : String)
  | function (name : String)
  | object (name : String)
  /-- A proxy that `safeProxy` makes. -/
  | safe_proxy (target : Value)
  | window_proxy
deriving DecidableEq

/-- `function(){}`. -/
def empty_function : Value := .function ""

def safeProxy : Value → Value
  | .undefined => .safe_proxy empty_function
  | .null => .safe_proxy empty_function
  | .primitive text => .primitive text
  | v => .safe_proxy v

/-- An accessor property, by the name of its functions. -/
abbrev Accessor := String

abbrev JsObject := Obj PropName Value Accessor

/-- What JavaScript code throws. -/
abbrev Thrown := String

abbrev JsHost := Host PropName Value Accessor Thrown

structure Window where
  nativeBuiltins : JsObject
  browserAPIs : JsObject
  target : JsObject

/-! ### `windowProxy` -/

def self_names : List PropName := ["window", "self", "globalThis"]

def safeProxyWrappedAPIs : List PropName :=
  ["navigator", "document", "screen", "location", "history", "performance", "crypto", "indexedDB",
   "__SLARDAR_REGISTRY__"]

namespace Window

variable (host : JsHost) (w : Window)

/-- The `get` trap. -/
def get (prop : PropName) : Except Thrown Value :=
  if prop ∈ self_names then .ok .window_proxy
  else if w.nativeBuiltins.has prop then w.nativeBuiltins.get host prop
  else if w.target.has prop then w.target.get host prop
  else if w.browserAPIs.has prop then do
    let val ← w.browserAPIs.get host prop
    return if prop ∈ safeProxyWrappedAPIs then safeProxy val else val
  else .ok (safeProxy empty_function)

/-- The `set` trap. -/
def set (prop : PropName) (value : Value) : Except Thrown Window :=
  if w.browserAPIs.has prop then do
    let browserAPIs ← w.browserAPIs.set host prop value
    return { w with browserAPIs }
  else do
    let target ← w.target.set host prop value
    return { w with target }

/-- The `has` trap. -/
def has (prop : PropName) : Bool :=
  prop ∈ self_names || w.nativeBuiltins.has prop || w.browserAPIs.has prop || w.target.has prop

/-- Assignments `window.P = v` one after the other. -/
def assign (assignments : List (PropName × Value)) : Except Thrown Window :=
  assignments.foldlM (fun w a => w.set host a.1 a.2) w

end Window

/-! ### The window of a fresh page -/

/-- The names of the literal `nativeBuiltins`. -/
def builtin_names : List PropName :=
  ["Math", "Date", "Array", "Object", "String", "Number", "Boolean", "RegExp", "JSON", "parseInt", "parseFloat",
   "isNaN", "isFinite", "encodeURIComponent", "decodeURIComponent", "encodeURI", "decodeURI", "escape", "unescape",
   "ArrayBuffer", "Uint8Array", "Uint16Array", "Uint32Array", "Int8Array", "Int16Array", "Int32Array",
   "Float32Array", "Float64Array", "Uint8ClampedArray", "DataView", "Map", "Set", "WeakMap", "WeakSet", "Promise",
   "Symbol", "Proxy", "Reflect", "Error", "TypeError", "RangeError", "SyntaxError", "URIError", "EvalError",
   "ReferenceError", "NaN", "Infinity", "undefined", "null", "eval", "Function", "BigInt", "BigInt64Array",
   "BigUint64Array", "Atomics", "AggregateError"]

/-- The functions and variables of the script, and the global that the signer sets before; they are globals when the
sweep runs. -/
def script_globals : List PropName :=
  ["__stderr", "safeProxy", "atob", "btoa", "__getCookies", "__setCookie", "fakeFetch", "createFakeWebGLContext",
   "FakeImage", "getComputedStyle", "__cookieJar", "perfStart", "fakePerformance", "fakeCrypto", "fakeDocument",
   "fakeNavigator", "fakeScreen", "fakeLocation", "bodyElement", "headElement", "htmlElement", "blobCounter",
   "FakeURL", "__timerQueue", "__timerId", "__drainingTimers", "_windowListeners", "nativeBuiltins", "_localStorage",
   "_sessionStorage", "browserAPIs", "safeProxyWrappedAPIs", "windowProxy"]

def engineSpecific : List PropName :=
  ["InternalError", "__date_clock", "SharedArrayBuffer", "Float16Array", "globalThis"]

/-- The names of the literal `browserAPIs`. -/
def browser_names : List PropName :=
  ["navigator", "document", "screen", "location", "history", "localStorage", "sessionStorage", "performance",
   "crypto", "console", "atob", "btoa", "fetch", "XMLHttpRequest", "TextEncoder", "TextDecoder", "Blob", "File",
   "FileReader", "URL", "URLSearchParams", "Headers", "Request", "Response", "AbortController", "AbortSignal",
   "Event", "CustomEvent", "MessageEvent", "MutationObserver", "IntersectionObserver", "ResizeObserver",
   "PerformanceObserver", "Image", "HTMLCanvasElement", "HTMLElement", "HTMLDivElement", "HTMLImageElement",
   "HTMLScriptElement", "HTMLStyleElement", "HTMLInputElement", "HTMLFormElement", "HTMLAnchorElement",
   "HTMLIFrameElement", "Element", "Node", "NodeList", "HTMLCollection", "DOMParser", "CSSStyleDeclaration",
   "Storage", "WebSocket", "Worker", "MessageChannel", "MessagePort", "BroadcastChannel", "WebGLRenderingContext",
   "PerformanceMark", "PerformanceMeasure", "PerformanceLongTaskTiming", "setTimeout", "clearTimeout", "setInterval",
   "clearInterval", "requestAnimationFrame", "cancelAnimationFrame", "requestIdleCallback", "cancelIdleCallback",
   "queueMicrotask", "devicePixelRatio", "innerWidth", "innerHeight", "outerWidth", "outerHeight", "scrollX",
   "scrollY", "pageXOffset", "pageYOffset", "screenX", "screenY", "screenLeft", "screenTop", "getComputedStyle",
   "matchMedia", "addEventListener", "removeEventListener", "dispatchEvent", "postMessage", "open", "close", "alert",
   "confirm", "prompt", "print", "focus", "blur", "scroll", "scrollTo", "scrollBy", "getSelection", "resizeTo",
   "resizeBy", "moveTo", "moveBy", "stop", "structuredClone", "name", "closed", "opener", "parent", "top",
   "frameElement", "frames", "length", "isSecureContext", "origin", "crossOriginIsolated", "CSS", "CSSStyleSheet",
   "StyleSheet", "indexedDB", "__SLARDAR_REGISTRY__", "__SLARDAR_DEVTOOLS_GLOBAL_HOOK__"]

/-- What the engine and the stubs give: the globals, the value of a global when the sweep runs, the properties of the
two prototypes, the values of `browserAPIs`. -/
structure Realm where
  globals : List PropName
  global : PropName → Value
  object_prototype : PropName → Option (Property Value Accessor)
  function_prototype : PropName → Option (Property Value Accessor)
  stub : PropName → Value

namespace Realm

variable (r : Realm)

/-- The sweep adds the name; a name of `Object.prototype` is in `engineSpecific` and in `nativeBuiltins` already. -/
def Swept (prop : PropName) : Prop :=
  (prop ∈ r.globals ∨ prop ∈ script_globals) ∧ prop ∉ engineSpecific ∧ (r.object_prototype prop).isNone

instance (prop : PropName) : Decidable (r.Swept prop) := inferInstanceAs (Decidable (_ ∧ _))

def builtin (prop : PropName) : Option Value :=
  if prop ∈ builtin_names ∨ r.Swept prop then some (r.global prop) else none

/-- `nativeBuiltins` after the sweep and the two shims for what is still undefined. -/
def native_own (prop : PropName) : Option (Property Value Accessor) :=
  if prop ∈ ["WeakRef", "FinalizationRegistry"] ∧ (r.builtin prop).getD .undefined = .undefined then
    some (.data (.function prop) true)
  else (r.builtin prop).map fun v => .data v true

def browser_own (prop : PropName) : Option (Property Value Accessor) :=
  if prop ∈ ["parent", "top"] then some (.data .window_proxy true)
  else if prop ∈ browser_names then some (.data (r.stub prop) true)
  else none

/-- The own properties of `function windowTarget(){}`. -/
def target_own : PropName → Option (Property Value Accessor)
  | "name" => some (.data (.primitive "windowTarget") false)
  | "length" => some (.data (.primitive "0") false)
  | "prototype" => some (.data (.object "windowTarget.prototype") true)
  | _ => none

def window : Window where
  nativeBuiltins := { own := r.native_own, inherited := r.object_prototype }
  browserAPIs := { own := r.browser_own, inherited := r.object_prototype }
  target := { own := target_own, inherited := fun prop => r.function_prototype prop <|> r.object_prototype prop }

end Realm

end TtLive.fake_dom
