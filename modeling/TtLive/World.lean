import TtLive.Threads
import TtLive.Dedup
import TtLive.Client

/-!
# The threads of a running client

`World` is the memory the threads share: the atomic flags, the two mutexes, the members of `Impl`, the
`WsClient`, and for each thread the network operation and the user code it is in. `World.step` answers an
action; what libcurl, the signer, user code and the clock contribute is the `Env` of the step, and
`World.sem` allows every `Env`. A `lock` of an owned mutex, `spawned` before the poll thread is created and
`join` before it ends are not answered, so their thread waits.

The threads are the caller of `run`, the poll thread and any number of application threads.
-/

namespace TtLive
open Prog Threads

inductive Tid
  | main
  | poller
  | app (n : Nat)
deriving DecidableEq, Repr

/-- What the outside of the process contributes to one step. -/
structure Env where
  net : ∀ op : NetOp, op.Result
  handshake : Handshake
  sent : Bool
  recv : CurlRecv
  user : List ApiCall
  now : Int

structure World where
  flag : Flag → Bool := fun _ => false
  owner : Mutex → Option Tid := fun _ => none
  op : Tid → Option NetOp := fun _ => none
  user : Tid → List Callee := fun _ => []
  ws : WsClient := {}
  dedup : Dedup := {}
  room_id : Int := 0
  stream_info : StreamInfo := {}
  gift_list : List GiftInfo := []
  ws_ever_connected : Bool := false
  hb_seq : Int := 1
  spawned : Option ProtoMessageFetchResult := none
  exited : Bool := false

namespace World

def step (t : Tid) (w : World) (env : Env) : (a : Act) → Option (Resp a × World)
  | .load f => some (w.flag f, w)
  | .store f b => some ((), { w with flag := Function.update w.flag f b })
  | .lock m =>
    if w.owner m = none then some ((), { w with owner := Function.update w.owner m (some t) }) else none
  | .unlock m =>
    if w.owner m = some t then some ((), { w with owner := Function.update w.owner m none }) else none
  | .net_begin op => some ((), { w with op := Function.update w.op t (some op) })
  | .net_end op => some (env.net op, { w with op := Function.update w.op t none })
  | .connect _ cookies ua =>
    some ((w.ws.connect cookies ua env.handshake).1, { w with ws := (w.ws.connect cookies ua env.handshake).2 })
  | .connected => some (w.ws.connected_, w)
  | .send_binary _ => some ((w.ws.send_binary env.sent).1, { w with ws := (w.ws.send_binary env.sent).2 })
  | .recv_binary =>
    let r := w.ws.recv_binary env.recv []
    some ((r.1, r.2.1), { w with ws := r.2.2 })
  | .close => some ((), { w with ws := w.ws.close })
  | .set_room_id id => some ((), { w with room_id := id })
  | .room_id => some (w.room_id, w)
  | .set_stream_info info => some ((), { w with stream_info := info })
  | .stream_info => some (w.stream_info, w)
  | .set_gift_list gifts => some ((), { w with gift_list := gifts })
  | .set_ws_ever_connected => some ((), { w with ws_ever_connected := true })
  | .ws_ever_connected => some (w.ws_ever_connected, w)
  | .next_hb_seq => some (w.hb_seq, { w with hb_seq := w.hb_seq + 1 })
  | .mark_seen id => some ((w.dedup.mark_seen id).1, { w with dedup := (w.dedup.mark_seen id).2 })
  | .call_begin c => some (env.user, { w with user := Function.update w.user t (c :: w.user t) })
  | .call_end _ => some ((), { w with user := Function.update w.user t (w.user t).tail })
  | .now => some (env.now, w)
  | .sleep _ => some ((), w)
  | .spawn initial => some ((), { w with spawned := some initial })
  | .spawned => w.spawned.map fun initial => (initial, w)
  | .exit => some ((), { w with exited := true })
  | .join => if w.exited then some ((), w) else none
  | .mark _ => some ((), w)

/-- The steps of the client: every answer of the outside is possible. -/
def sem : Sem Tid World Resp := fun t w a r w' => ∃ env, w.step t env a = some (r, w')

theorem sem_of_step (t : Tid) (w : World) (env : Env) (a : Act) (r : Resp a) (w' : World)
    (h : w.step t env a = some (r, w')) : sem t w a r w' := ⟨env, h⟩

/-! The actions that are not always answered. -/

theorem sem_lock {t : Tid} {w w' : World} {m : Mutex} {r : Unit} (h : sem t w (.lock m) r w') :
    w.owner m = none ∧ w' = { w with owner := Function.update w.owner m (some t) } := by
  obtain ⟨env, h⟩ := h
  simp only [step] at h
  split at h <;> cases h
  exact ⟨‹_›, rfl⟩

theorem sem_unlock {t : Tid} {w w' : World} {m : Mutex} {r : Unit} (h : sem t w (.unlock m) r w') :
    w.owner m = some t ∧ w' = { w with owner := Function.update w.owner m none } := by
  obtain ⟨env, h⟩ := h
  simp only [step] at h
  split at h <;> cases h
  exact ⟨‹_›, rfl⟩

theorem sem_spawned {t : Tid} {w w' : World} {r : ProtoMessageFetchResult} (h : sem t w .spawned r w') :
    w.spawned = some r ∧ w' = w := by
  obtain ⟨env, h⟩ := h
  obtain ⟨initial, hi, h⟩ := Option.map_eq_some_iff.1 h
  cases h
  exact ⟨hi, rfl⟩

theorem sem_join {t : Tid} {w w' : World} {r : Unit} (h : sem t w .join r w') :
    w.exited = true ∧ w' = w := by
  obtain ⟨env, h⟩ := h
  simp only [step] at h
  split at h <;> cases h
  exact ⟨‹_›, rfl⟩

/-- The flags after an action. -/
def flag_after (flag : Flag → Bool) : Act → Flag → Bool
  | .store f b => Function.update flag f b
  | _ => flag

theorem sem_flag {t : Tid} {w w' : World} {a : Act} {r : Resp a} (h : sem t w a r w') :
    w'.flag = flag_after w.flag a := by
  cases a with
  | lock m => rw [(sem_lock h).2]; rfl
  | unlock m => rw [(sem_unlock h).2]; rfl
  | spawned => rw [(sem_spawned h).2]; rfl
  | join => rw [(sem_join h).2]; rfl
  | _ => obtain ⟨env, h⟩ := h; cases h; rfl

theorem sem_load {t : Tid} {w w' : World} {f : Flag} {b : Bool} (h : sem t w (.load f) b w') :
    b = w.flag f := by
  obtain ⟨env, h⟩ := h
  cases h
  rfl

/-- Only `mark_seen` changes the window. -/
theorem sem_dedup {t : Tid} {w w' : World} {a : Act} {r : Resp a} (h : sem t w a r w')
    (ha : ∀ id, a ≠ .mark_seen id) : w'.dedup = w.dedup := by
  cases a with
  | lock m => rw [(sem_lock h).2]
  | unlock m => rw [(sem_unlock h).2]
  | spawned => rw [(sem_spawned h).2]
  | join => rw [(sem_join h).2]
  | mark_seen id => exact absurd rfl (ha id)
  | _ => obtain ⟨env, h⟩ := h; cases h; rfl

/-- Only `set_room_id` changes the room, and only drawing a heartbeat number the number. -/
theorem sem_room_id {t : Tid} {w w' : World} {a : Act} {r : Resp a} (h : sem t w a r w')
    (hr : ∀ id, a ≠ .set_room_id id) (hn : a ≠ .next_hb_seq) :
    w'.room_id = w.room_id ∧ w'.hb_seq = w.hb_seq := by
  cases a with
  | lock m => rw [(sem_lock h).2]; exact ⟨rfl, rfl⟩
  | unlock m => rw [(sem_unlock h).2]; exact ⟨rfl, rfl⟩
  | spawned => rw [(sem_spawned h).2]; exact ⟨rfl, rfl⟩
  | join => rw [(sem_join h).2]; exact ⟨rfl, rfl⟩
  | set_room_id id => exact absurd rfl (hr id)
  | next_hb_seq => exact absurd rfl hn
  | _ => obtain ⟨env, h⟩ := h; cases h; exact ⟨rfl, rfl⟩

/-- Only `run` creates the poll thread. -/
theorem sem_spawn {t : Tid} {w w' : World} {a : Act} {r : Resp a} (h : sem t w a r w')
    (ha : ∀ initial, a ≠ .spawn initial) : w'.spawned = w.spawned := by
  cases a with
  | lock m => rw [(sem_lock h).2]
  | unlock m => rw [(sem_unlock h).2]
  | spawned => rw [(sem_spawned h).2]
  | join => rw [(sem_join h).2]
  | spawn initial => exact absurd rfl (ha initial)
  | _ => obtain ⟨env, h⟩ := h; cases h; rfl

/-- Only `lock` and `unlock` change the owner of a mutex. -/
theorem sem_owner {t : Tid} {w w' : World} {a : Act} {r : Resp a} {m : Mutex} (h : sem t w a r w')
    (hl : a ≠ .lock m) (hu : a ≠ .unlock m) : w'.owner m = w.owner m := by
  cases a with
  | lock m' =>
    rw [(sem_lock h).2]
    exact Function.update_of_ne (fun hm => hl (by rw [hm])) _ _
  | unlock m' =>
    rw [(sem_unlock h).2]
    exact Function.update_of_ne (fun hm => hu (by rw [hm])) _ _
  | spawned => rw [(sem_spawned h).2]
  | join => rw [(sem_join h).2]
  | _ => obtain ⟨env, h⟩ := h; cases h; rfl

/-- A world in which no thread holds a mutex, is in a network operation or in user code, and the poll
thread of the coming run does not exist. -/
structure Idle (w : World) : Prop where
  owner : ∀ m, w.owner m = none
  op : ∀ t, w.op t = none
  user : ∀ t, w.user t = []
  spawned : w.spawned = none
  exited : w.exited = false

theorem idle_init : Idle {} := ⟨fun _ => rfl, fun _ => rfl, fun _ => rfl, rfl, rfl⟩

end World

/-- What the outside contributes while the server answers every `im/fetch` with `im_fetch` and the socket
receives `recv`. -/
def sample_env (im_fetch : Bytes) (recv : CurlRecv) : Env where
  net op := match op with
    | .get _ _ _ => .ok { status := 200, body := im_fetch }
    | .cookie_header => lit "ttwid=1"
    | .set_cookies _ => .ok ()
    | .sign url => .ok url.text
  handshake := .ok
  sent := true
  recv := recv
  user := []
  now := 0

/-- What the threads of a client run; application thread `n` makes the calls `calls n`. -/
def threads (cfg : Config) (calls : Nat → List ApiCall) : Tid → Code (Except Exn Unit)
  | .main => run cfg
  | .poller => poller cfg
  | .app n => application cfg (calls n)

/-- The start of a run of the client. -/
def start (cfg : Config) (calls : Nat → List ApiCall) (w : World) :
    Conf Tid World Act Resp (Except Exn Unit) :=
  ⟨w, threads cfg calls⟩

end TtLive
