import Mathlib.Data.List.Basic

/-!
# Streaming decoders

A `Decoder` is called again and again with the input that is left and with room for output; a call takes some
input, gives some output and says how it ended. A `Format` says what there is to decode: which strings are
complete streams, none of which continues another, and what the bytes of a string decode to. `Obeys` is the
contract between the two, over every history of calls (`Reached`); `Accepts` adds that streams are not
rejected.

`Reading` follows a loop that calls the decoder with a fixed amount of room until it reports an end or has
taken the input. In `RunsDry` the input is used up and no end was reported.
-/

namespace Streaming

/-- How a call ends; `other` are the codes that end the decoding without a result. -/
inductive Ret
  | ok
  | stream_end
  | buf_error
  | other (code : Int)
deriving DecidableEq, Repr

def Ret.goes_on : Ret → Bool
  | .ok | .buf_error => true
  | _ => false

structure Call (σ β : Type) where
  ret : Ret
  taken : Nat
  out : List β
  state : σ

structure Decoder (σ β : Type) where
  init : Option σ
  inflate : σ → List β → Nat → Call σ β

structure Format (β : Type) where
  complete : List β → Prop
  decoded : List β → List β
  prefix_free : ∀ {z z'}, complete z → complete z' → z <+: z' → z = z'
  mono : ∀ {c c'}, c <+: c' → decoded c <+: decoded c'

variable {σ β : Type} {d : Decoder σ β} {fmt : Format β}

/-- The states a decoder can be in after it has taken `c` and given `o`. -/
inductive Reached (d : Decoder σ β) : σ → List β → List β → Prop
  | init {st : σ} (h : d.init = some st) : Reached d st [] []
  | call {st : σ} {c o : List β} (h : Reached d st c o) (inp : List β) (room : Nat)
      (hr : (d.inflate st inp room).ret.goes_on) :
      Reached d (d.inflate st inp room).state (c ++ inp.take (d.inflate st inp room).taken)
        (o ++ (d.inflate st inp room).out)

structure Obeys (d : Decoder σ β) (fmt : Format β) : Prop where
  taken_le : ∀ {st c o inp room}, Reached d st c o → (d.inflate st inp room).taken ≤ inp.length
  out_le : ∀ {st c o inp room}, Reached d st c o → (d.inflate st inp room).out.length ≤ room
  ends : ∀ {st c o inp room}, Reached d st c o → (d.inflate st inp room).ret = .stream_end →
    fmt.complete (c ++ inp.take (d.inflate st inp room).taken) ∧
      o ++ (d.inflate st inp room).out = fmt.decoded (c ++ inp.take (d.inflate st inp room).taken)
  goes_on : ∀ {st c o inp room}, Reached d st c o → (d.inflate st inp room).ret.goes_on →
    (∀ z, z <+: c ++ inp.take (d.inflate st inp room).taken → ¬ fmt.complete z) ∧
      o ++ (d.inflate st inp room).out <+: fmt.decoded (c ++ inp.take (d.inflate st inp room).taken)
  progress : ∀ {st c o inp room}, Reached d st c o → inp ≠ [] → 0 < room →
    (d.inflate st inp room).ret.goes_on →
    (d.inflate st inp room).taken ≠ 0 ∨ (d.inflate st inp room).out ≠ []

/-- A decoder that can be set up and rejects no input that a stream begins or that begins a stream. -/
structure Accepts (d : Decoder σ β) (fmt : Format β) : Prop where
  init : d.init ≠ none
  accepts : ∀ {st c o inp room z}, Reached d st c o → fmt.complete z → (z <+: c ++ inp ∨ c ++ inp <+: z) →
    ∀ code, (d.inflate st inp room).ret ≠ .other code

/-! ### Reading a string to its end -/

/-- Before a call of the loop on `s`: `n` bytes are taken, `o` is given. -/
inductive Reading (d : Decoder σ β) (room : Nat) (s : List β) : Nat → List β → σ → Prop
  | init {st : σ} (h : d.init = some st) : Reading d room s 0 [] st
  | call {n : Nat} {o : List β} {st : σ} (h : Reading d room s n o st)
      (hr : (d.inflate st (s.drop n) room).ret.goes_on)
      (hn : n + (d.inflate st (s.drop n) room).taken < s.length) :
      Reading d room s (n + (d.inflate st (s.drop n) room).taken)
        (o ++ (d.inflate st (s.drop n) room).out) (d.inflate st (s.drop n) room).state

/-- The loop takes the whole of `s` and gives `o`, and no call reports an end. -/
def RunsDry (d : Decoder σ β) (room : Nat) (s o : List β) : Prop :=
  ∃ n o₁ st, Reading d room s n o₁ st ∧ (d.inflate st (s.drop n) room).ret.goes_on ∧
    n + (d.inflate st (s.drop n) room).taken = s.length ∧ o = o₁ ++ (d.inflate st (s.drop n) room).out

theorem take_add_drop (s : List β) (n k : Nat) : s.take n ++ (s.drop n).take k = s.take (n + k) :=
  List.take_add.symm

section
variable {room n : Nat} {s o : List β} {st : σ}

theorem Reading.reached (h : Reading d room s n o st) : n ≤ s.length ∧ Reached d st (s.take n) o := by
  induction h with
  | init h => exact ⟨Nat.zero_le _, by simpa using .init h⟩
  | call _ hr hn ih => exact ⟨Nat.le_of_lt hn, take_add_drop s .. ▸ ih.2.call _ _ hr⟩

/-- What is given so far is part of what `s` decodes to. -/
theorem Reading.out_decoded (hd : Obeys d fmt) (h : Reading d room s n o st) : o <+: fmt.decoded s := by
  cases h with
  | init => exact List.nil_prefix
  | call h hr hn =>
    refine (hd.goes_on h.reached.2 hr).2.trans (fmt.mono ?_)
    rw [take_add_drop]
    exact List.take_prefix _ _

/-- An input on which the loop runs dry contains no complete stream, and what was given is part of what the
input decodes to. -/
theorem RunsDry.incomplete (hd : Obeys d fmt) (h : RunsDry d room s o) :
    (∀ z, z <+: s → ¬ fmt.complete z) ∧ o <+: fmt.decoded s := by
  obtain ⟨n, o₁, st, hread, hr, hn, rfl⟩ := h
  have := hd.goes_on hread.reached.2 hr
  rwa [take_add_drop, hn, List.take_length] at this

/-- A call that reports the end has decoded a stream that `s` begins with. -/
theorem Reading.ends (hd : Obeys d fmt) (h : Reading d room s n o st)
    (hr : (d.inflate st (s.drop n) room).ret = .stream_end) :
    ∃ z, z <+: s ∧ fmt.complete z ∧ o ++ (d.inflate st (s.drop n) room).out = fmt.decoded z := by
  obtain ⟨hc, ho⟩ := hd.ends h.reached.2 hr
  rw [take_add_drop] at hc ho
  exact ⟨_, List.take_prefix _ _, hc, ho⟩

/-- On an input that begins with a stream, or begins one, no call reports an error. -/
theorem Reading.accepted (ha : Accepts d fmt) (h : Reading d room s n o st) {z : List β} (hz : fmt.complete z)
    (hs : z <+: s ∨ s <+: z) (code : Int) : (d.inflate st (s.drop n) room).ret ≠ .other code := by
  refine ha.accepts h.reached.2 hz ?_ code
  rwa [List.take_append_drop]

end

/-! ### A decoder that takes one byte per call -/

section
variable (fmt)

/-- Decodes by its format, a byte per call. The state is what has been taken. -/
def bytewise [DecidablePred fmt.complete] : Decoder (List β) β where
  init := some []
  inflate c inp room :=
    match inp with
    | [] => ⟨.buf_error, 0, [], c⟩
    | b :: _ =>
      if room = 0 then ⟨.buf_error, 0, [], c⟩
      else ⟨if fmt.complete (c ++ [b]) then .stream_end else .ok, 1,
        (fmt.decoded (c ++ [b])).drop (fmt.decoded c).length, c ++ [b]⟩

variable {fmt}

theorem bytewise_reached [DecidablePred fmt.complete] (h₀ : fmt.decoded [] = []) (hc₀ : ¬ fmt.complete [])
    {st c o : List β} (h : Reached (bytewise fmt) st c o) :
    st = c ∧ o = fmt.decoded c ∧ ∀ z, z <+: c → ¬ fmt.complete z := by
  induction h with
  | init h =>
    cases h
    exact ⟨rfl, h₀.symm, fun z hz => by rwa [List.prefix_nil.1 hz]⟩
  | call h inp room hr ih =>
    obtain ⟨rfl, rfl, hno⟩ := ih
    cases inp with
    | nil => simpa [bytewise] using hno
    | cons b inp =>
      by_cases hroom : room = 0
      · simpa [bytewise, hroom] using hno
      · simp only [bytewise, if_neg hroom] at hr ⊢
        split at hr
        · cases hr
        · next hc =>
          refine ⟨rfl, ?_, fun z hz => ?_⟩
          · obtain ⟨t, ht⟩ := fmt.mono (List.prefix_append _ [b])
            rw [← ht, List.drop_left]
            simp [ht]
          · rcases List.prefix_concat_iff.1 hz with rfl | hz
            · exact hc
            · exact hno z hz

theorem bytewise_obeys [DecidablePred fmt.complete] (h₀ : fmt.decoded [] = []) (hc₀ : ¬ fmt.complete [])
    (hone : ∀ c b, (fmt.decoded (c ++ [b])).length ≤ (fmt.decoded c).length + 1) :
    Obeys (bytewise fmt) fmt where
  taken_le := by
    intro st c o inp room _
    cases inp with
    | nil => simp [bytewise]
    | cons b inp => by_cases hroom : room = 0 <;> simp [bytewise, hroom]
  out_le := by
    intro st c o inp room _
    cases inp with
    | nil => simp [bytewise]
    | cons b inp =>
      by_cases hroom : room = 0
      · simp [bytewise, hroom]
      · have := hone st b
        simp only [bytewise, if_neg hroom, List.length_drop]
        omega
  ends := by
    intro st c o inp room h hr
    obtain ⟨rfl, rfl, -⟩ := bytewise_reached h₀ hc₀ h
    cases inp with
    | nil => cases hr
    | cons b inp =>
      by_cases hroom : room = 0
      · simp [bytewise, hroom] at hr
      · simp only [bytewise, if_neg hroom] at hr ⊢
        split at hr
        · next hc =>
          obtain ⟨t, ht⟩ := fmt.mono (List.prefix_append _ [b])
          refine ⟨hc, ?_⟩
          rw [← ht, List.drop_left]
          simp [ht]
        · cases hr
  goes_on := by
    intro st c o inp room h hr
    obtain ⟨-, ho, hno⟩ := bytewise_reached h₀ hc₀ (h.call inp room hr)
    exact ⟨hno, ho ▸ List.prefix_rfl⟩
  progress := by
    intro st c o inp room _ hinp hroom _
    cases inp with
    | nil => exact absurd rfl hinp
    | cons b inp => exact .inl (by simp [bytewise, Nat.pos_iff_ne_zero.1 hroom])

theorem bytewise_accepts [DecidablePred fmt.complete] : Accepts (bytewise fmt) fmt where
  init := nofun
  accepts := by
    intro st c o inp room z _ _ _ code
    cases inp with
    | nil => exact nofun
    | cons b inp =>
      by_cases hroom : room = 0
      · simp [bytewise, hroom]
      · simp only [bytewise, if_neg hroom]
        split <;> exact nofun

end

end Streaming
