import TtLive.StreamDecoder
import TtLive.WebDefaults
import Mathlib.Data.List.GetD
import Mathlib.Data.List.Infix

/-!
# `gunzip` of `client.cpp`

The loop around `inflate`, for any streaming decoder. The loop leaves when `inflate` reports the end of the
stream, and also when the input is used up; `gunzip_outcome` says what it returns in each case.
-/

namespace TtLive
open Streaming

variable {σ : Type} {d : Decoder σ UInt8} {fmt : Format UInt8}

/-- `sizeof(buf)`. -/
def buf_size : Nat := 16384

/-- The input that `inflate` sees: `avail_in = static_cast<uInt>(in.size())`. -/
def avail_in (s : Bytes) : Bytes := s.take (s.length % 0x100000000)

/-- The loop of `gunzip`; `some none` where the function returns its input. -/
def gunzip_loop (d : Decoder σ UInt8) : Nat → σ → Bytes → Bytes → Option (Option Bytes)
  | 0, _, _, _ => none
  | fuel + 1, zs, next_in, out =>
    let r := d.inflate zs next_in buf_size
    match r.ret with
    | .other _ => some none
    | ret =>
      let out := out ++ r.out
      let next_in := next_in.drop r.taken
      if ret ≠ .stream_end ∧ next_in.length > 0 then gunzip_loop d fuel r.state next_in out
      else some (some out)

def gunzip (d : Decoder σ UInt8) (fuel : Nat) (s : Bytes) : Option Bytes :=
  if s = [] then some s
  else match d.init with
    | none => some s
    | some zs => (gunzip_loop d fuel zs (avail_in s) []).map (·.getD s)

/-- The complete decompression of a stream that starts the input, or the input itself. -/
def AllOrNothing (fmt : Format UInt8) (s r : Bytes) : Prop :=
  (∃ z, z <+: s ∧ fmt.complete z ∧ r = fmt.decoded z) ∨ r = s

/-! ### One call -/

section
variable {fuel : Nat} {zs : σ} {next_in out : Bytes}

theorem loop_other {code : Int} (h : (d.inflate zs next_in buf_size).ret = .other code) :
    gunzip_loop d (fuel + 1) zs next_in out = some none := by
  simp [gunzip_loop, h]

theorem loop_ends (h : (d.inflate zs next_in buf_size).ret = .stream_end) :
    gunzip_loop d (fuel + 1) zs next_in out = some (some (out ++ (d.inflate zs next_in buf_size).out)) := by
  simp [gunzip_loop, h]

theorem loop_goes_on (h : (d.inflate zs next_in buf_size).ret.goes_on) :
    gunzip_loop d (fuel + 1) zs next_in out =
      if (d.inflate zs next_in buf_size).taken < next_in.length then
        gunzip_loop d fuel (d.inflate zs next_in buf_size).state
          (next_in.drop (d.inflate zs next_in buf_size).taken) (out ++ (d.inflate zs next_in buf_size).out)
      else some (some (out ++ (d.inflate zs next_in buf_size).out)) := by
  have hleft : (next_in.drop (d.inflate zs next_in buf_size).taken).length > 0 ↔
      (d.inflate zs next_in buf_size).taken < next_in.length := by
    rw [List.length_drop]
    exact Nat.sub_pos_iff_lt
  rw [gunzip_loop]
  cases hr : (d.inflate zs next_in buf_size).ret with
  | ok => exact if_congr ((and_iff_right nofun).trans hleft) rfl rfl
  | buf_error => exact if_congr ((and_iff_right nofun).trans hleft) rfl rfl
  | stream_end => rw [hr] at h; cases h
  | other => rw [hr] at h; cases h

end

/-! ### The loop on an input `s` -/

section
variable {s o : Bytes} {n : Nat} {st : σ}

/-- A call that goes on: either the next reading of `s`, or the input is used up. -/
theorem loop_reading (h : Reading d buf_size s n o st) (hr : (d.inflate st (s.drop n) buf_size).ret.goes_on)
    (fuel : Nat) :
    (∃ n' o' st', Reading d buf_size s n' o' st' ∧ n' = n + (d.inflate st (s.drop n) buf_size).taken ∧
      o' = o ++ (d.inflate st (s.drop n) buf_size).out ∧ n < s.length ∧
      gunzip_loop d (fuel + 1) st (s.drop n) o = gunzip_loop d fuel st' (s.drop n') o') ∨
    s.length ≤ n + (d.inflate st (s.drop n) buf_size).taken ∧
      gunzip_loop d (fuel + 1) st (s.drop n) o = some (some (o ++ (d.inflate st (s.drop n) buf_size).out)) := by
  rw [loop_goes_on hr, List.length_drop, List.drop_drop]
  by_cases hlt : (d.inflate st (s.drop n) buf_size).taken < s.length - n
  · rw [if_pos hlt]
    exact .inl ⟨_, _, _, h.call hr (by omega), rfl, rfl, by omega, rfl⟩
  · rw [if_neg hlt]
    exact .inr ⟨by omega, rfl⟩

/-- Every round of the loop takes input or gives output, and both are bounded. -/
theorem loop_terminates (hd : Obeys d fmt) (h : Reading d buf_size s n o st) {fuel : Nat}
    (hfuel : (s.length - n) + ((fmt.decoded s).length - o.length) < fuel) :
    ∃ r, gunzip_loop d fuel st (s.drop n) o = some r := by
  induction fuel generalizing n o st with
  | zero => omega
  | succ fuel ih =>
    cases hr : (d.inflate st (s.drop n) buf_size).ret with
    | other code => exact ⟨_, loop_other hr⟩
    | stream_end => exact ⟨_, loop_ends hr⟩
    | _ =>
      have hgo : (d.inflate st (s.drop n) buf_size).ret.goes_on := by rw [hr]; rfl
      rcases loop_reading h hgo fuel with ⟨n', o', st', h', rfl, rfl, hn, heq⟩ | ⟨-, heq⟩
      · rw [heq]
        refine ih h' ?_
        have hlen := (h'.out_decoded hd).length_le
        rw [List.length_append] at hlen ⊢
        rcases hd.progress h.reached.2 (by simpa using hn) (by decide) hgo with ht | ho
        · omega
        · have := List.length_pos_iff.2 ho
          omega
      · exact ⟨_, heq⟩

theorem loop_mono {fuel : Nat} {zs : σ} {next_in out : Bytes} {r : Option Bytes}
    (h : gunzip_loop d fuel zs next_in out = some r) (k : Nat) :
    gunzip_loop d (fuel + k) zs next_in out = some r := by
  induction fuel generalizing zs next_in out with
  | zero => cases h
  | succ fuel ih =>
    rw [Nat.succ_add]
    cases hr : (d.inflate zs next_in buf_size).ret with
    | other code => rwa [loop_other hr] at h ⊢
    | stream_end => rwa [loop_ends hr] at h ⊢
    | _ =>
      have hgo : (d.inflate zs next_in buf_size).ret.goes_on := by rw [hr]; rfl
      rw [loop_goes_on hgo] at h ⊢
      split at h
      · next hlt => rw [if_pos hlt]; exact ih h
      · next hlt => rwa [if_neg hlt]

/-- What the loop returns: the input after an error, the plaintext of a stream, or what has been given when
the input is used up. -/
theorem loop_outcome (hd : Obeys d fmt) (h : Reading d buf_size s n o st) {fuel : Nat} {r : Option Bytes}
    (hloop : gunzip_loop d fuel st (s.drop n) o = some r) :
    (r = none ∧ ∃ n o st code, Reading d buf_size s n o st ∧ (d.inflate st (s.drop n) buf_size).ret = .other code) ∨
      (∃ z, z <+: s ∧ fmt.complete z ∧ r = some (fmt.decoded z)) ∨ ∃ p, r = some p ∧ RunsDry d buf_size s p := by
  induction fuel generalizing n o st with
  | zero => cases hloop
  | succ fuel ih =>
    cases hr : (d.inflate st (s.drop n) buf_size).ret with
    | other code =>
      rw [loop_other hr] at hloop
      cases hloop
      exact .inl ⟨rfl, n, o, st, code, h, hr⟩
    | stream_end =>
      rw [loop_ends hr] at hloop
      cases hloop
      obtain ⟨z, hz, hc, ho⟩ := h.ends hd hr
      exact .inr (.inl ⟨z, hz, hc, by rw [ho]⟩)
    | _ =>
      have hgo : (d.inflate st (s.drop n) buf_size).ret.goes_on := by rw [hr]; rfl
      rcases loop_reading h hgo fuel with ⟨n', o', st', h', -, -, -, heq⟩ | ⟨hn, heq⟩
      · rw [heq] at hloop
        exact ih h' hloop
      · rw [heq] at hloop
        cases hloop
        have htaken : (d.inflate st (s.drop n) buf_size).taken ≤ (s.drop n).length := hd.taken_le h.reached.2
        rw [List.length_drop] at htaken
        have := h.reached.1
        exact .inr (.inr ⟨_, rfl, n, o, st, h, hgo, by omega, rfl⟩)

/-- The loop reaches every reading of its input. -/
theorem loop_reaches {st₀ : σ} (hinit : d.init = some st₀) (h : Reading d buf_size s n o st) :
    ∃ k, ∀ fuel, gunzip_loop d (fuel + k) st₀ s [] = gunzip_loop d fuel st (s.drop n) o := by
  induction h with
  | init h =>
    cases hinit.symm.trans h
    exact ⟨0, fun _ => rfl⟩
  | @call n o st h hr hn ih =>
    obtain ⟨k, hk⟩ := ih
    refine ⟨k + 1, fun fuel => ?_⟩
    rw [← Nat.add_assoc, Nat.add_right_comm, hk, loop_goes_on hr, List.length_drop, if_pos (by omega),
      List.drop_drop]

theorem loop_runs_dry {st₀ : σ} {p : Bytes} (hinit : d.init = some st₀) (h : RunsDry d buf_size s p) :
    ∃ fuel, gunzip_loop d fuel st₀ s [] = some (some p) := by
  obtain ⟨n, o, st, hread, hr, hn, rfl⟩ := h
  obtain ⟨k, hk⟩ := loop_reaches hinit hread
  refine ⟨1 + k, ?_⟩
  rw [hk, loop_goes_on hr, List.length_drop, if_neg (by omega)]

end

/-! ### The function -/

theorem prefix_avail_in (s : Bytes) : avail_in s <+: s := List.take_prefix _ _

theorem avail_in_of_lt {s : Bytes} (h : s.length < 0x100000000) : avail_in s = s := by
  rw [avail_in, Nat.mod_eq_of_lt h, List.take_length]

/-- Enough fuel gives a result, the same for every amount. -/
theorem gunzip_terminates (hd : Obeys d fmt) (s : Bytes) :
    ∃ r, ∀ fuel, (avail_in s).length + (fmt.decoded (avail_in s)).length < fuel → gunzip d fuel s = some r := by
  by_cases hs : s = []
  · exact ⟨s, fun fuel _ => if_pos hs⟩
  · cases hi : d.init with
    | none => exact ⟨s, fun fuel _ => by simp [gunzip, hs, hi]⟩
    | some st =>
      have hread : Reading d buf_size (avail_in s) 0 [] st := .init hi
      obtain ⟨r, hr⟩ := loop_terminates hd hread (Nat.lt_succ_self _)
      rw [List.drop_zero] at hr
      refine ⟨r.getD s, fun fuel hf => ?_⟩
      obtain ⟨k, rfl⟩ := Nat.exists_eq_add_of_le (Nat.succ_le_of_lt hf)
      have hk := loop_mono hr k
      simp only [Nat.sub_zero, List.length_nil, Nat.succ_eq_add_one] at hk
      simp [gunzip, hs, hi, hk]

/-- The result is the input, the plaintext of a stream that starts it, or what `inflate` has given when it
runs dry. -/
theorem gunzip_outcome (hd : Obeys d fmt) {s r : Bytes} {fuel : Nat} (h : gunzip d fuel s = some r) :
    r = s ∨ (∃ z, z <+: avail_in s ∧ fmt.complete z ∧ r = fmt.decoded z) ∨ RunsDry d buf_size (avail_in s) r := by
  by_cases hs : s = []
  · rw [gunzip, if_pos hs] at h
    exact .inl (Option.some.inj h).symm
  · rw [gunzip, if_neg hs] at h
    cases hi : d.init with
    | none =>
      rw [hi] at h
      exact .inl (Option.some.inj h).symm
    | some st =>
      rw [hi] at h
      obtain ⟨r', hr', rfl⟩ := Option.map_eq_some_iff.1 h
      rcases loop_outcome hd (.init hi : Reading d buf_size (avail_in s) 0 [] st) (by simpa using hr') with
        ⟨rfl, -⟩ | ⟨z, hz, hc, rfl⟩ | ⟨p, rfl, hp⟩
      · exact .inl rfl
      · exact .inr (.inl ⟨z, hz, hc, rfl⟩)
      · exact .inr (.inr hp)

theorem gunzip_runs_dry {s p : Bytes} (hs : s ≠ []) (h : RunsDry d buf_size (avail_in s) p) :
    ∃ fuel, gunzip d fuel s = some p := by
  obtain ⟨n, o, st, hread, -⟩ := id h
  have hinit : ∃ st₀, d.init = some st₀ := by
    clear h
    induction hread with
    | init h => exact ⟨_, h⟩
    | call _ _ _ ih => exact ih
  obtain ⟨st₀, hi⟩ := hinit
  obtain ⟨fuel, hf⟩ := loop_runs_dry hi h
  exact ⟨fuel, by simp [gunzip, hs, hi, hf]⟩

theorem gunzip_mono {s r : Bytes} {fuel : Nat} (h : gunzip d fuel s = some r) (k : Nat) :
    gunzip d (fuel + k) s = some r := by
  unfold gunzip at h ⊢
  split
  · next hs => rwa [if_pos hs] at h
  · next hs =>
    rw [if_neg hs] at h
    cases hi : d.init with
    | none => rwa [hi] at h
    | some st =>
      rw [hi] at h
      obtain ⟨r', hr', rfl⟩ := Option.map_eq_some_iff.1 h
      simp [loop_mono hr' k]

theorem gunzip_unique {s r r' : Bytes} {fuel fuel' : Nat} (h : gunzip d fuel s = some r)
    (h' : gunzip d fuel' s = some r') : r = r' := by
  have h₁ := gunzip_mono h fuel'
  rw [Nat.add_comm] at h₁
  exact Option.some.inj (h₁.symm.trans (gunzip_mono h' fuel))

/-- `gunzip` returns, and the result is all or nothing unless `inflate` runs dry: it uses up the input without
reporting an end. Apart from that, what it has given by then can only be the input itself by coincidence, or,
when `avail_in` has lost part of the input, the plaintext of a stream that goes on in that part. -/
theorem gunzip_all_or_nothing_iff (hd : Obeys d fmt) (s : Bytes) :
    ∃ r, (∃ n, ∀ fuel, n < fuel → gunzip d fuel s = some r) ∧
      (AllOrNothing fmt s r ↔ s = [] ∨ ∀ p, RunsDry d buf_size (avail_in s) p →
        p = s ∨ 0x100000000 ≤ s.length ∧ ∃ z, z <+: s ∧ fmt.complete z ∧ p = fmt.decoded z) := by
  obtain ⟨r, hr⟩ := gunzip_terminates hd s
  refine ⟨r, ⟨_, hr⟩, fun hall => or_iff_not_imp_left.2 fun hs p hp => ?_, fun hcond => ?_⟩
  · obtain ⟨fuel, hf⟩ := gunzip_runs_dry hs hp
    obtain rfl := gunzip_unique (hr _ (Nat.lt_succ_self _)) hf
    rcases hall with ⟨z, hz, hc, ho⟩ | ho
    · refine .inr ⟨Nat.le_of_not_lt fun hlt => ?_, z, hz, hc, ho⟩
      rw [avail_in_of_lt hlt] at hp
      exact (hp.incomplete hd).1 z hz hc
    · exact .inl ho
  · rcases gunzip_outcome hd (hr _ (Nat.lt_succ_self _)) with ho | ⟨z, hz, hc, ho⟩ | hdry
    · exact .inr ho
    · exact .inl ⟨z, hz.trans (prefix_avail_in s), hc, ho⟩
    · rcases hcond with rfl | hcond
      · have := hr _ (Nat.lt_succ_self _)
        rw [gunzip, if_pos rfl] at this
        exact .inr (Option.some.inj this).symm
      · rcases hcond r hdry with ho | ⟨-, hz⟩
        · exact .inr ho
        · exact .inl hz

/-- A nonempty part of a stream, cut short at any byte, runs dry: `gunzip` returns the part of the plaintext
that `inflate` has given. -/
theorem gunzip_truncated (hd : Obeys d fmt) (ha : Accepts d fmt) {s z : Bytes} (hs : s ≠ []) (hz : fmt.complete z)
    (hsz : s <+: z) (hne : s ≠ z) (hlt : s.length < 0x100000000) :
    ∃ p fuel, RunsDry d buf_size s p ∧ p <+: fmt.decoded z ∧ gunzip d fuel s = some p := by
  obtain ⟨r, hr⟩ := gunzip_terminates hd s
  have hrun := hr _ (Nat.lt_succ_self _)
  unfold gunzip at hrun
  rw [if_neg hs, avail_in_of_lt hlt] at hrun
  cases hi : d.init with
  | none => exact absurd hi ha.init
  | some st =>
    rw [hi] at hrun
    obtain ⟨r', hr', rfl⟩ := Option.map_eq_some_iff.1 hrun
    have hread : Reading d buf_size s 0 [] st := .init hi
    rcases loop_outcome hd hread (by simpa using hr') with ⟨rfl, n', o', st', code, hread', hcode⟩ |
      ⟨z', hz', hc', -⟩ | ⟨p, rfl, hp⟩
    · exact absurd hcode (hread'.accepted ha hz (.inr hsz) code)
    · have := fmt.prefix_free hc' hz (hz'.trans hsz)
      exact absurd (hsz.eq_of_length_le (this ▸ hz'.length_le)) hne
    · exact ⟨p, _, hp, (hp.incomplete hd).2.trans (fmt.mono hsz), hr _ (Nat.lt_succ_self _)⟩

theorem gunzip_complete (hd : Obeys d fmt) (ha : Accepts d fmt) {z : Bytes} (hne : z ≠ []) (hz : fmt.complete z)
    (hlt : z.length < 0x100000000) : ∃ n, ∀ fuel, n < fuel → gunzip d fuel z = some (fmt.decoded z) := by
  obtain ⟨r, hr⟩ := gunzip_terminates hd z
  have hrun := hr _ (Nat.lt_succ_self _)
  unfold gunzip at hrun
  rw [if_neg hne, avail_in_of_lt hlt] at hrun
  cases hi : d.init with
  | none => exact absurd hi ha.init
  | some st =>
    rw [hi] at hrun
    obtain ⟨r', hr', rfl⟩ := Option.map_eq_some_iff.1 hrun
    have hread : Reading d buf_size z 0 [] st := .init hi
    rcases loop_outcome hd hread (by simpa using hr') with ⟨rfl, n', o', st', code, hread', hcode⟩ |
      ⟨z', hz', hc', rfl⟩ | ⟨p, rfl, hp⟩
    · exact absurd hcode (hread'.accepted ha hz (.inl List.prefix_rfl) code)
    · obtain rfl := fmt.prefix_free hc' hz hz'
      exact ⟨_, hr⟩
    · exact absurd hz ((hp.incomplete hd).1 z List.prefix_rfl)

/-! ### Stored streams

The gzip streams with one stored block, for inputs on which the function can be run. -/

def crc32_bit (c : Nat) : Nat := if c % 2 = 1 then (c >>> 1) ^^^ 0xedb88320 else c >>> 1

def crc32 (p : Bytes) : Nat :=
  p.foldl (fun c b => Nat.repeat crc32_bit 8 (c ^^^ b.toNat)) 0xffffffff ^^^ 0xffffffff

def le_bytes : Nat → Nat → Bytes
  | 0, _ => []
  | k + 1, n => UInt8.ofNat n :: le_bytes k (n / 256)

def gzip_header : Bytes := [0x1f, 0x8b, 8, 0, 0, 0, 0, 0, 0, 0xff]

/-- Header, block header with the length and its complement, plaintext, CRC and length. -/
def gzip_stored (p : Bytes) : Bytes :=
  gzip_header ++ 1 :: (le_bytes 2 p.length ++ le_bytes 2 (0xffff - p.length)) ++ p ++
    (le_bytes 4 (crc32 p) ++ le_bytes 4 p.length)

/-- The part of the stored block that `c` holds. -/
def stored_part (c : Bytes) : Bytes := (c.drop 15).take ((c.getD 11 0).toNat + 256 * (c.getD 12 0).toNat)

theorem stored_part_gzip_stored {p : Bytes} (h : p.length < 65536) : stored_part (gzip_stored p) = p := by
  have hlen : p.length % 256 + 256 * (p.length / 256 % 256) = p.length := by omega
  simp [stored_part, gzip_stored, gzip_header, le_bytes, hlen]

theorem length_gzip_stored (p : Bytes) : (gzip_stored p).length = p.length + 23 := by
  simp [gzip_stored, gzip_header, le_bytes]

theorem stored_part_append {c : Bytes} (h : 15 ≤ c.length) (t : Bytes) :
    stored_part (c ++ t) = (c.drop 15 ++ t).take ((c.getD 11 0).toNat + 256 * (c.getD 12 0).toNat) := by
  unfold stored_part
  rw [List.getD_append _ _ _ _ (by omega), List.getD_append _ _ _ _ (by omega), List.drop_append_of_le_length h]

theorem stored_part_short {c : Bytes} (h : c.length ≤ 15) : stored_part c = [] := by
  simp [stored_part, List.drop_eq_nil_of_le h]

def stored : Format UInt8 where
  complete z := (stored_part z).length < 65536 ∧ z = gzip_stored (stored_part z)
  decoded := stored_part
  prefix_free := by
    rintro z _ ⟨-, hz⟩ ⟨-, hz'⟩ ⟨t, rfl⟩
    have h15 : 15 ≤ z.length := by rw [hz, length_gzip_stored]; omega
    have hlen : (stored_part (z ++ t)).length = (stored_part z).length := by
      have hz := congrArg List.length hz
      have hz' := congrArg List.length hz'
      rw [length_gzip_stored] at hz hz'
      rw [stored_part_append h15] at hz' ⊢
      unfold stored_part at hz ⊢
      simp only [List.length_take, List.length_append, List.length_drop] at hz hz' ⊢
      omega
    have := congrArg List.length hz'
    rw [length_gzip_stored, hlen, ← length_gzip_stored, ← hz, List.length_append] at this
    rw [List.eq_nil_of_length_eq_zero (by omega : t.length = 0), List.append_nil]
  mono := by
    rintro c _ ⟨t, rfl⟩
    rcases Nat.le_total c.length 15 with h | h
    · rw [stored_part_short h]
      exact List.nil_prefix
    · rw [stored_part_append h]
      exact List.IsPrefix.take (List.prefix_append _ t) _

instance : DecidablePred stored.complete := fun z =>
  inferInstanceAs (Decidable ((stored_part z).length < 65536 ∧ z = gzip_stored (stored_part z)))

theorem stored_complete {p : Bytes} (h : p.length < 65536) : stored.complete (gzip_stored p) := by
  refine ⟨?_, ?_⟩ <;> rw [stored_part_gzip_stored h]
  exact h

theorem stored_obeys : Obeys (bytewise stored) stored := by
  refine bytewise_obeys rfl (by decide) fun c b => ?_
  change (stored_part (c ++ [b])).length ≤ (stored_part c).length + 1
  rcases Nat.lt_or_ge c.length 15 with h | h
  · rw [stored_part_short (by rw [List.length_append, List.length_singleton]; omega)]
    exact Nat.zero_le _
  · rw [stored_part_append h]
    unfold stored_part
    simp only [List.length_take, List.length_append, List.length_singleton]
    omega

/-- A stream cut inside its block: the plaintext up to there comes back, neither all nor nothing. -/
theorem gunzip_cut_in_block : ¬ ∀ (σ : Type) (d : Decoder σ UInt8) (fmt : Format UInt8), Obeys d fmt →
    ∀ s, ∃ r, (∃ n, ∀ fuel, n < fuel → gunzip d fuel s = some r) ∧ AllOrNothing fmt s r := by
  intro hall
  obtain ⟨r, ⟨n, hr⟩, hnone⟩ := hall _ _ _ stored_obeys ((gzip_stored [0x68, 0x69]).take 16)
  have hrun : gunzip (bytewise stored) 20 ((gzip_stored [0x68, 0x69]).take 16) = some [0x68] := by decide +kernel
  obtain rfl := gunzip_unique (hr _ (Nat.lt_succ_self n)) hrun
  rcases hnone with ⟨z, hz, hc, ho⟩ | hs
  · have : z.length ≤ 16 := hz.length_le
    have hlen := congrArg List.length hc.2
    rw [length_gzip_stored] at hlen
    change [0x68] = stored_part z at ho
    rw [← ho] at hlen
    simp at hlen
    omega
  · exact absurd hs (by decide +kernel)

/-- A whole stream with a byte behind it. -/
theorem gunzip_stored_all_or_nothing : ∃ r,
    (∃ n, ∀ fuel, n < fuel → gunzip (bytewise stored) fuel (gzip_stored [0x68, 0x69] ++ [0]) = some r) ∧
      r = [0x68, 0x69] ∧ AllOrNothing stored (gzip_stored [0x68, 0x69] ++ [0]) r := by
  obtain ⟨r, ⟨n, hr⟩, hall⟩ := gunzip_all_or_nothing_iff stored_obeys (gzip_stored [0x68, 0x69] ++ [0])
  have hrun : gunzip (bytewise stored) 40 (gzip_stored [0x68, 0x69] ++ [0]) = some [0x68, 0x69] := by decide +kernel
  have hfull : avail_in (gzip_stored [0x68, 0x69] ++ [0]) = gzip_stored [0x68, 0x69] ++ [0] :=
    avail_in_of_lt (by decide +kernel)
  refine ⟨r, ⟨n, hr⟩, gunzip_unique (hr _ (Nat.lt_succ_self n)) hrun, hall.2 (.inr fun p hp => ?_)⟩
  rw [hfull] at hp
  exact absurd (stored_complete (by decide)) ((hp.incomplete stored_obeys).1 _ (List.prefix_append _ _))

end TtLive
