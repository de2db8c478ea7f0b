import TtLive.Ledger
import TtLive.WsClient

/-!
# `ws_client.cpp`: what a `WsClient` allocates

`WsImpl` is `Impl` with its two pointers: the `curl` handle and the `curl_slist` of headers, each with the ledger of the
libcurl calls made on it (the calls of one function on a handle are one `use`). `connect` overwrites the pointer of an
earlier connection, and the list with what `curl_slist_append` returns, which is null where that fails; `close` keeps
the pointers and only the destructor frees them. `handles_leaked` says what that costs over a history: no call is ever
made on a null or freed pointer, every handle but the last connect's stays allocated, and so does every list to which
a header could not be appended.
-/

namespace TtLive

open Ledger (Holder balance)

structure WsImpl where
  client : WsClient := {}
  curl : Holder := {}
  hdrs : Holder := {}

/-- A call on a `WsClient`; in a connect, `appended i` tells whether the `i`-th `curl_slist_append` succeeds. -/
structure WsCall where
  op : WsOp
  appended : Nat → Bool

/-- What the calls of `curl_slist_append` answer. -/
def WsCall.appends (c : WsCall) : List Bool :=
  match c.op with
  | .connect _ _ .init_failed => []
  | .connect cookie_header user_agent _ =>
    (List.range (WsClient.append_headers [] cookie_header user_agent).length).map c.appended
  | _ => []

/-- `hdrs = curl_slist_append(hdrs, line)`: a null list becomes a new one, and a failure returns null. -/
def slist_append (hdrs : Holder) (ok : Bool) : Holder :=
  if ok then if hdrs.slot.isSome then hdrs.use else hdrs.take else hdrs.forget

/-- The list that `curl_slist_append` returns. -/
def slist_lines (hdrs : List Bytes) (line : Bytes × Bool) : List Bytes := if line.2 then hdrs ++ [line.1] else []

namespace WsImpl

def connect (w : WsImpl) (cookie_header user_agent : Bytes) (h : Handshake) (appends : List Bool) : WsImpl :=
  let client := w.client.step (.connect cookie_header user_agent h)
  match h with
  | .init_failed => { w with client, curl := w.curl.forget }
  | h =>
    let lines := (WsClient.append_headers [] cookie_header user_agent).zip appends
    let hdrs := appends.foldl slist_append w.hdrs
    { client := { client with hdrs := lines.foldl slist_lines w.client.hdrs }
      curl := match h with
        -- curl_easy_cleanup(c); impl_->curl = nullptr;
        | .perform_failed _ => w.curl.take.use.release
        | _ => w.curl.take.use
      -- CURLOPT_HTTPHEADER may be null
      hdrs := if hdrs.slot.isSome then hdrs.use else hdrs }

/-- `if (connected_ && curl)` before a call on the handle. -/
def call (w : WsImpl) : Holder := if w.client.connected_ && w.curl.slot.isSome then w.curl.use else w.curl

def step (w : WsImpl) (c : WsCall) : WsImpl :=
  match c.op with
  | .connect cookie_header user_agent h => w.connect cookie_header user_agent h c.appends
  | .send ok => { w with client := w.client.step (.send ok), curl := w.call }
  | .recv r => { w with client := w.client.step (.recv r), curl := w.call }
  | .close => { w with client := w.client.step .close, curl := w.call }

def after (w : WsImpl) (calls : List WsCall) : WsImpl := calls.foldl step w

/-- `~WsClient`, with `~Impl`. -/
def destroy (w : WsImpl) : WsImpl :=
  let w := w.step ⟨.close, fun _ => true⟩
  { w with hdrs := w.hdrs.release, curl := w.curl.release }

end WsImpl

/-- Whether a connect succeeds; the other calls do not connect. -/
def WsCall.connected (c : WsCall) : List Bool :=
  match c.op with
  | .connect _ _ h => [h = .ok]
  | .send _ | .recv _ | .close => []

/-- How many appends fail behind one that succeeded; `held` tells whether there is a list at the start. -/
def failed_appends (held : Bool) : List Bool → Nat
  | [] => 0
  | ok :: answers => (if held && !ok then 1 else 0) + failed_appends ok answers

theorem failed_appends_append (held : Bool) (as bs : List Bool) :
    failed_appends held (as ++ bs) = failed_appends held as + failed_appends (as.getLast?.getD held) bs := by
  induction as generalizing held with
  | nil => exact (Nat.zero_add _).symm
  | cons ok as ih =>
    rw [List.cons_append, failed_appends, failed_appends, ih, Nat.add_assoc]
    cases as with
    | nil => rfl
    | cons b as => simp [List.getLast?_cons]

namespace WsImpl

/-- The header list of an object whose appends so far went as `answers` says. -/
structure Listed (hdrs : Holder) (answers : List Bool) : Prop where
  balanced : hdrs.Balanced
  held : hdrs.slot.isSome = answers.getLast?.getD false
  lost : hdrs.lost.length = failed_appends false answers

/-- The pointers of an object whose connects so far went as `done` says, and whose appends as `answers`. -/
structure Sound (w : WsImpl) (done answers : List Bool) : Prop where
  curl : w.curl.Owns done
  hdrs : Listed w.hdrs answers
  held : w.client.curl = w.curl.slot.isSome

variable {w : WsImpl} {done answers : List Bool}

theorem owns_call (h : w.curl.Owns done) : w.call.Owns done := by
  unfold call
  split_ifs with hc
  · exact h.use (Bool.and_eq_true_iff.1 hc).2
  · exact h

theorem slot_call (w : WsImpl) : w.call.slot = w.curl.slot := by
  unfold call
  split_ifs
  · exact Holder.slot_use _
  · rfl

theorem Listed.append {hdrs : Holder} (h : Listed hdrs answers) (ok : Bool) :
    Listed (slist_append hdrs ok) (answers ++ [ok]) := by
  have hlost : (if answers.getLast?.getD false && !ok then 1 else 0) + hdrs.lost.length =
      failed_appends false (answers ++ [ok]) := by
    rw [failed_appends_append, h.lost, Nat.add_comm]
    rfl
  have hlast : (answers ++ [ok]).getLast?.getD false = ok := by rw [List.getLast?_concat, Option.getD_some]
  rw [← h.held] at hlost
  cases ok with
  | true =>
    rw [Bool.not_true, Bool.and_false] at hlost
    unfold slist_append
    rw [if_pos rfl]
    split_ifs with hs
    · exact ⟨h.balanced.use hs, by rw [Holder.slot_use, hs, hlast], by rw [Holder.lost_use, ← hlost]; simp⟩
    · refine ⟨h.balanced.take, by rw [hlast]; rfl, ?_⟩
      rw [Holder.lost_take, Option.not_isSome_iff_eq_none.1 hs, ← hlost]
      simp
  | false =>
    refine ⟨h.balanced.forget, by rw [hlast]; rfl, ?_⟩
    show (hdrs.lost ++ hdrs.slot.toList).length = _
    rw [← hlost, List.length_append, Nat.add_comm]
    cases hdrs.slot <;> rfl

theorem Listed.appends {hdrs : Holder} (h : Listed hdrs answers) (more : List Bool) :
    Listed (more.foldl slist_append hdrs) (answers ++ more) := by
  induction more generalizing hdrs answers with
  | nil => rwa [List.append_nil]
  | cons ok more ih =>
    rw [List.foldl_cons, List.append_cons]
    exact ih (h.append ok)

theorem Listed.set (h : Listed w.hdrs answers) :
    Listed (if w.hdrs.slot.isSome then w.hdrs.use else w.hdrs) answers := by
  split_ifs with hs
  · exact ⟨h.balanced.use hs, by rw [Holder.slot_use, h.held], by rw [Holder.lost_use, h.lost]⟩
  · exact h

theorem Sound.connect (h : Sound w done answers) (c : WsCall) {cookie_header user_agent : Bytes} {hs : Handshake}
    (hop : c.op = .connect cookie_header user_agent hs) :
    Sound (w.connect cookie_header user_agent hs c.appends) (done ++ [decide (hs = .ok)]) (answers ++ c.appends) := by
  have hlist := (h.hdrs.appends c.appends).set (w := { w with hdrs := c.appends.foldl slist_append w.hdrs })
  have htake : w.curl.take.use.Owns (done ++ [true]) := h.curl.take.use rfl
  rcases hs with _ | what | _
  · have hnone : c.appends = [] := by rw [WsCall.appends, hop]
    rw [hnone, List.append_nil]
    exact ⟨h.curl.forget, h.hdrs, rfl⟩
  · exact ⟨htake.give_back, hlist, by simp [WsImpl.connect, WsClient.step, WsClient.connect]⟩
  · exact ⟨htake, hlist, rfl⟩

/-- A call on the handle keeps the pointers, whatever it makes of the rest of the state. -/
theorem Sound.call (h : Sound w done answers) {client : WsClient} (hc : client.curl = w.client.curl) :
    Sound { w with client := client, curl := w.call } done answers where
  curl := owns_call h.curl
  hdrs := h.hdrs
  held := by rw [hc, h.held, slot_call]

theorem curl_send (c : WsClient) (ok : Bool) : (c.step (.send ok)).curl = c.curl := by
  show (c.send_binary ok).2.curl = c.curl
  unfold WsClient.send_binary
  split_ifs <;> rfl

theorem curl_recv (c : WsClient) (r : CurlRecv) : (c.step (.recv r)).curl = c.curl := by
  show (c.recv_binary r []).2.2.curl = c.curl
  unfold WsClient.recv_binary
  split_ifs
  · rfl
  · rcases r with _ | _ | ⟨data, frame⟩
    · rfl
    · rfl
    · dsimp only
      split_ifs <;> rfl

theorem Sound.step (h : Sound w done answers) (c : WsCall) :
    Sound (w.step c) (done ++ c.connected) (answers ++ c.appends) := by
  rcases hop : c.op with ⟨cookie_header, user_agent, hs⟩ | ok | r | _
  · have hstep := h.connect c hop
    unfold WsImpl.step WsCall.connected
    rwa [hop]
  all_goals
    have hnone : c.appends = [] := by rw [WsCall.appends, hop]
    unfold WsImpl.step WsCall.connected
    rw [hop, hnone, List.append_nil, List.append_nil]
  · exact h.call (curl_send w.client ok)
  · exact h.call (curl_recv w.client r)
  · exact h.call rfl

theorem sound_init : Sound {} [] [] :=
  ⟨Holder.owns_init, ⟨Holder.balanced_init, rfl, rfl⟩, rfl⟩

theorem Sound.after (h : Sound w done answers) (calls : List WsCall) :
    Sound (w.after calls) (done ++ calls.flatMap WsCall.connected) (answers ++ calls.flatMap WsCall.appends) := by
  induction calls generalizing w done answers with
  | nil => rwa [List.flatMap_nil, List.flatMap_nil, List.append_nil, List.append_nil]
  | cons c calls ih =>
    rw [List.flatMap_cons, List.flatMap_cons, ← List.append_assoc, ← List.append_assoc]
    exact ih (h.step c)

/-- Over every history of calls on one object, up to its destruction: libcurl is never called with a null pointer or
with one that has been freed, a header list stays allocated for each append that failed on one, and of the handles
those of the successful connects that another connect followed. -/
theorem handles_leaked (calls : List WsCall) :
    ∃ handles lists, balance (WsImpl.after {} calls).destroy.curl.steps = some handles ∧
      balance (WsImpl.after {} calls).destroy.hdrs.steps = some lists ∧
      lists.live.length = failed_appends false (calls.flatMap WsCall.appends) ∧
      handles.live.length = (calls.flatMap WsCall.connected).dropLast.count true := by
  have h := (sound_init.after calls).step ⟨.close, fun _ => true⟩
  have hnone : WsCall.connected ⟨.close, fun _ => true⟩ = [] ∧ WsCall.appends ⟨.close, fun _ => true⟩ = [] := ⟨rfl, rfl⟩
  rw [List.nil_append, List.nil_append, hnone.1, hnone.2, List.append_nil, List.append_nil] at h
  obtain ⟨handles, hhandles, hlive⟩ := h.curl.left
  obtain ⟨lists, hlists, hfreed, -⟩ := h.hdrs.balanced.release.book
  have hlost := h.hdrs.lost
  rw [Holder.lost_release, Holder.slot_release, Option.toList_none, List.append_nil] at hfreed
  exact ⟨handles, lists, hhandles, hlists, hfreed.length_eq.trans hlost, hlive⟩

/-- A failing append loses the list that it was given, and null has none to lose. -/
example : failed_appends false [true, true, false, false, true] = 1 := rfl

/-- Where every append succeeds, the object does what `WsClient` does. -/
theorem client_step (w : WsImpl) (op : WsOp) : (w.step ⟨op, fun _ => true⟩).client = w.client.step op := by
  have hlines : ∀ (lines hdrs : List Bytes),
      (lines.zip ((List.range lines.length).map fun _ => true)).foldl slist_lines hdrs = hdrs ++ lines := by
    intro lines
    rw [List.map_const', List.length_range]
    induction lines with
    | nil => exact fun hdrs => (List.append_nil hdrs).symm
    | cons line lines ih =>
      intro hdrs
      rw [List.length_cons, List.replicate_succ, List.zip_cons_cons, List.foldl_cons, ih, slist_lines, if_pos rfl,
        List.append_assoc]
      rfl
  have hadded : ∀ hdrs cookie_header user_agent, hdrs ++ WsClient.append_headers [] cookie_header user_agent =
      WsClient.append_headers hdrs cookie_header user_agent := fun _ _ _ => by simp [WsClient.append_headers]
  rcases op with ⟨cookie_header, user_agent, hs⟩ | ok | r | _
  · rcases hs with _ | what | _
    · rfl
    · have h := hlines (WsClient.append_headers [] cookie_header user_agent) w.client.hdrs
      rw [hadded] at h
      simp only [WsImpl.step, WsImpl.connect, WsCall.appends, WsClient.step, WsClient.connect, h]
    · have h := hlines (WsClient.append_headers [] cookie_header user_agent) w.client.hdrs
      rw [hadded] at h
      simp only [WsImpl.step, WsImpl.connect, WsCall.appends, WsClient.step, WsClient.connect, h]
  · rfl
  · rfl
  · rfl

end WsImpl

end TtLive
