import TtLive.Invariance
import TtLive.World

/-!
# The runs of one client

A client is run any number of times, one run after the other. Its members and the other threads go on from
where the last run left them; the poll thread belongs to a run.
-/

namespace TtLive
open Prog Threads

/-- `run` is called on a client in the state `c`. -/
def again (cfg : Config) (c : Conf Tid World Act Resp (Except Exn Unit)) :
    Conf Tid World Act Resp (Except Exn Unit) :=
  ⟨{ c.world with spawned := none, exited := false }, fun
    | .main => run cfg
    | .poller => poller cfg
    | .app n => c.prog (.app n)⟩

/-- The traces of a new client up to any point of its last run. -/
inductive Lifetime (cfg : Config) (calls : Nat → List ApiCall) :
    List (Tid × Ev Resp) → Conf Tid World Act Resp (Except Exn Unit) → Prop
  | first {tr : List (Tid × Ev Resp)} {c : Conf Tid World Act Resp (Except Exn Unit)}
      (h : Run World.sem (start cfg calls {}) tr c) : Lifetime cfg calls tr c
  | again {tr tr' : List (Tid × Ev Resp)} {c c' : Conf Tid World Act Resp (Except Exn Unit)}
      {r : Except Exn Unit} (h : Lifetime cfg calls tr c) (hret : c.prog .main = .ret r)
      (hrun : Run World.sem (again cfg c) tr' c') : Lifetime cfg calls (tr ++ tr') c'

/-- The program has returned. -/
def returned : Code (Except Exn Unit) → Bool
  | .ret _ => true
  | _ => false

theorem eq_ret_of_returned {p : Code (Except Exn Unit)} (h : returned p) : ∃ r, p = .ret r := by
  cases p with
  | ret r => exact ⟨r, rfl⟩
  | act => cases h
  | loop => cases h

variable {cfg : Config} {calls : Nat → List ApiCall} {G : Type}

/-! ### The other threads -/

/-- What the poll thread does: it neither connects nor sends nor receives, and leaves alone what `run` sets. -/
def Act.foreign : Act → Bool
  | .connect _ _ _ | .connected | .send_binary _ | .recv_binary | .next_hb_seq => false
  | .set_room_id _ | .set_stream_info _ | .stream_info | .set_ws_ever_connected | .ws_ever_connected => false
  | _ => true

/-- What an application thread does. -/
def Act.aside : Act → Bool
  | .net_begin (.get page _ _) | .net_end (.get page _ _) => page.plain
  | a => a.still

theorem Act.foreign_of_aside {a : Act} (h : a.aside) : a.foreign := by
  cases a <;> first | rfl | cases h

theorem does_poller : Does (·.foreign) (poller cfg) := by
  have act : ∀ a : Act, a.foreign → Does (·.foreign) (call a) := fun a h => does_perform h
  have calm : ∀ a : Act, a.calm → Does (·.foreign) (call a) := fun a h =>
    act a (by cases a <;> first | rfl | cases h)
  have hnet : ∀ op, Does (·.foreign) (net op) := fun op => (act _ rfl).bind fun _ => act _ rfl
  have hinvoke : ∀ c, Does (·.foreign) (invoke (api cfg) c) := fun c =>
    keeps_invoke (still_of_calm calm) (fun _ _ _ _ => hnet _) c (act _ rfl) (act _ rfl)
  have hsink : ∀ kind data, Does (·.foreign) (sink cfg kind data) := fun _ _ => .ite (hinvoke _) (keeps_pure _)
  have hdispatch := keeps_dispatch_message (fun _ => act _ rfl) (act _ rfl) (act _ rfl) (fun _ => act _ rfl)
    (fun _ => hsink _ _) (fun _ => keeps_emit (act _ rfl) fun _ => hinvoke _) (act _ rfl)
  have hfetch : ∀ cursor internal_ext, Does (·.foreign) (fetch_once cfg cursor internal_ext) := fun _ _ =>
    keeps_fetch_once (fun _ _ => act _ rfl) (act _ rfl) (act _ rfl)
      (keeps_fetch_request_of (still_of_calm calm) hnet hsink)
  exact keeps_poller (keeps_poll_loop calm hdispatch hfetch fun _ _ => act _ rfl) (act _ rfl) (act _ rfl)

theorem does_application (calls : List ApiCall) : Does (·.aside) (application cfg calls) := by
  refine keeps_application (fun a h => does_perform ?_) (fun page url hs hp => ?_) calls
  · cases a <;> first | exact h | cases h
  · exact Keeps.bind (p := call (.net_begin (.get page url hs))) (does_perform hp) fun _ => does_perform hp

/-- An application thread goes on from run to run. -/
theorem Lifetime.does_app {tr : List (Tid × Ev Resp)} {c : Conf Tid World Act Resp (Except Exn Unit)}
    (h : Lifetime cfg calls tr c) (n : Nat) : Does (·.aside) (c.prog (.app n)) := by
  induction h with
  | first h => exact (does_application (calls n)).runs (h.thread_runs (.app n))
  | again _ _ hrun ih => exact Does.runs ih (hrun.thread_runs (.app n))

/-! ### Invariants of a lifetime -/

/-- `Run.invariant` over all runs of a client: between two runs the relation must not mind the new poll
thread, and what `run` ends with must be what it can start with. -/
theorem Lifetime.invariant {M : Tid → Monitor Act Resp G} {Q : Tid → Except Exn Unit → G → Prop}
    {I : List (Tid × Ev Resp) → World → (Tid → G) → Prop} {s : Tid → G}
    {tr : List (Tid × Ev Resp)} {c : Conf Tid World Act Resp (Except Exn Unit)}
    (hstep : ∀ tr w g t a r w', I tr w g → (M t).ok (g t) a → World.sem t w a r w' →
      ∃ g', (M t).next (g t) a r g' ∧ I (tr ++ [(t, ⟨a, r⟩)]) w' (Function.update g t g'))
    (hagain : ∀ tr w g, I tr w g → I tr { w with spawned := none, exited := false } g)
    (hrun : ∀ r g, Q .main r g → wp (M .main) (run cfg) (Q .main) g)
    (hpoller : ∀ g, wp (M .poller) (poller cfg) (Q .poller) g)
    (h : Lifetime cfg calls tr c) (h₀ : I [] {} s)
    (hwp : ∀ t, wp (M t) (threads cfg calls t) (Q t) (s t)) :
    ∃ g, I tr c.world g ∧ ∀ t, wp (M t) (c.prog t) (Q t) (g t) := by
  induction h with
  | first h => exact h.invariant hstep h₀ hwp
  | @again tr _ c _ r _ hret hrun' ih =>
    obtain ⟨g, hI, hwp⟩ := ih
    have hmain := hwp .main
    rw [hret] at hmain
    refine hrun'.invariant (I := fun tr' w g => I (tr ++ tr') w g) (fun tr' w g t a r w' hI hok hs => ?_)
      (by rw [List.append_nil]; exact hagain _ _ _ hI) fun t => ?_
    · rw [← List.append_assoc]
      exact hstep _ w g t a r w' hI hok hs
    · cases t with
      | main => exact hrun r _ hmain
      | poller => exact hpoller _
      | app n => exact hwp (.app n)

end TtLive
