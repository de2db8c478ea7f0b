import TtLive.Client
import TtLive.Gunzip

/-!
# The payload of a `msg` frame

A payload comes as the serialised result, as gzip under a `compress_type` header, or as gzip without one.
`handle_frame_of_encoding` says that the client does the same with all three. No serialised result starts like
gzip, since the first byte of the magic number is a tag with wire type 7.
-/

namespace TtLive
open Streaming Prog

variable {σ : Type} {d : Decoder σ UInt8} {fmt : Format UInt8} {cfg : Config}

/-- A gzip stream of `P`, from its magic number and method byte on. -/
structure GzipOf (fmt : Format UInt8) (P G : Bytes) : Prop where
  complete : fmt.complete G
  decoded : fmt.decoded G = P
  magic : [0x1f, 0x8b, 0x08] <+: G

def gzip_header_entry : PushHeader where
  key := lit "compress_type"
  value := lit "gzip"

/-- The three ways in which a frame carries `P`. -/
inductive Carries (fmt : Format UInt8) (P : Bytes) (frame : WebcastPushFrame) : Prop
  | plain (h : frame.payload = P) (hh : ∀ e ∈ frame.headers, e.key ≠ lit "compress_type")
  | gzip_announced (h : GzipOf fmt P frame.payload) (hh : gzip_header_entry ∈ frame.headers)
  | gzip_detected (h : GzipOf fmt P frame.payload) (hh : gzip_header_entry ∉ frame.headers)

/-- What `ParseFromArray` and `ParseFromString` guarantee: a tag with wire type 6 or 7 is an error, and a
`bytes` field holds less than 2 GiB. -/
structure Codec.Protobuf (codec : Codec) : Prop where
  wire_type : ∀ b rest, 6 ≤ b.toNat % 8 → codec.fetch_result (b :: rest) = none
  payload_size : ∀ raw frame, codec.push_frame raw = some frame → frame.payload.length < 0x80000000

/-- `Config.gunzip` is the loop around some decoder for `fmt` that rejects no stream. -/
structure Config.Inflates (cfg : Config) (d : Decoder σ UInt8) (fmt : Format UInt8) : Prop where
  obeys : Obeys d fmt
  accepts : Accepts d fmt
  gunzip : ∀ s, ∃ fuel, TtLive.gunzip d fuel s = some (cfg.gunzip s)

/-- The auto-detection of `ws_handle_frame`. -/
def starts_like_gzip (payload : Bytes) : Prop :=
  payload.length > 2 ∧ payload[0]? = some 0x1f ∧ payload[1]? = some 0x8b

theorem not_starts_like_gzip {codec : Codec} (hp : codec.Protobuf) {P : Bytes} {R : ProtoMessageFetchResult}
    (hP : codec.fetch_result P = some R) : ¬ starts_like_gzip P := by
  rintro ⟨-, h0, -⟩
  cases P with
  | nil => cases h0
  | cons b rest =>
    cases h0
    rw [hp.wire_type 0x1f rest (by decide)] at hP
    cases hP

theorem GzipOf.starts_like_gzip {P G : Bytes} (h : GzipOf fmt P G) : starts_like_gzip G := by
  obtain ⟨t, rfl⟩ := h.magic
  exact ⟨by simp, rfl, rfl⟩

theorem GzipOf.gunzip {P G : Bytes} (h : GzipOf fmt P G) (hi : cfg.Inflates d fmt) (hlt : G.length < 0x80000000) :
    cfg.gunzip G = P := by
  have hne : G ≠ [] := by
    rintro rfl
    exact absurd h.magic (by decide)
  obtain ⟨n, hn⟩ := gunzip_complete hi.obeys hi.accepts hne h.complete (by omega)
  obtain ⟨fuel, hf⟩ := hi.gunzip G
  rw [gunzip_unique hf (hn _ (Nat.lt_succ_self n)), h.decoded]

/-- Whichever way a frame carries `P`, it is decompressed exactly as often as it was compressed. -/
theorem frame_payload_of_carries (hi : cfg.Inflates d fmt) (hp : cfg.codec.Protobuf) {raw P : Bytes}
    {frame : WebcastPushFrame} {R : ProtoMessageFetchResult} (hraw : cfg.codec.push_frame raw = some frame)
    (hP : cfg.codec.fetch_result P = some R) (hc : Carries fmt P frame) : frame_payload cfg frame = P := by
  have hsize := hp.payload_size raw frame hraw
  have hno : ¬ starts_like_gzip P := not_starts_like_gzip hp hP
  have hany : (frame.headers.any fun h => h.key = lit "compress_type" && h.value = lit "gzip") = true ↔
      gzip_header_entry ∈ frame.headers := by
    rw [List.any_eq_true]
    constructor
    · rintro ⟨⟨key, value⟩, he, hk⟩
      obtain ⟨rfl, rfl⟩ : key = lit "compress_type" ∧ value = lit "gzip" := by simpa using hk
      exact he
    · exact fun he => ⟨_, he, by decide⟩
  unfold frame_payload
  simp only [hany]
  cases hc with
  | plain h hh =>
    rw [if_neg fun he => hh _ he rfl, h]
    exact if_neg hno
  | gzip_announced h hh =>
    rw [if_pos hh, h.gunzip hi hsize]
    exact if_neg hno
  | gzip_detected h hh =>
    rw [if_neg hh]
    exact (if_pos h.starts_like_gzip).trans (h.gunzip hi hsize)

/-- What `ws_handle_frame` does with a parsed result. -/
def handle_result (cfg : Config) (log_id : Int) (result : ProtoMessageFetchResult) : Code Bool := do
  if result.need_ack then ws_send_ack log_id result.internal_ext else pure ()
  process_fetch_result cfg result

/-- After the sink, the ack, the messages and the return value depend on the `log_id` and the result alone,
not on how the frame carries it; the second decompression never sees a payload that is already decompressed. -/
theorem handle_frame_of_encoding (hi : cfg.Inflates d fmt) (hp : cfg.codec.Protobuf) {raw P : Bytes}
    {frame : WebcastPushFrame} {R : ProtoMessageFetchResult} (hraw : cfg.codec.push_frame raw = some frame)
    (hmsg : frame.payload_type = lit "msg") (hP : cfg.codec.fetch_result P = some R) (hc : Carries fmt P frame) :
    ws_handle_frame cfg raw = (do sink cfg (lit "ws_frame") raw; handle_result cfg frame.log_id R) ∧
      ¬ starts_like_gzip P := by
  refine ⟨?_, not_starts_like_gzip hp hP⟩
  have hdec : decode_frame cfg raw = some (frame, R) := by
    simp [decode_frame, hraw, hmsg, frame_payload_of_carries hi hp hraw hP hc, hP]
  simp only [ws_handle_frame, hdec, handle_result]

/-- The sample codec with a frame that carries a gzip stream; `inflate` on stored streams. -/
def gzip_config : Config :=
  { sample_config {} with
    codec := { sample_codec with
      push_frame := fun b => [sample_frame (gzip_stored (sample_batch [1] (lit "B")).1)].lookup b }
    gunzip := fun s =>
      (gunzip (bytewise stored) ((avail_in s).length + (stored_part (avail_in s)).length + 1) s).getD s }

theorem gzip_config_inflates : gzip_config.Inflates (bytewise stored) stored where
  obeys := stored_obeys
  accepts := bytewise_accepts
  gunzip s := by
    obtain ⟨r, hr⟩ := gunzip_terminates stored_obeys s
    have hrun : gunzip (bytewise stored) ((avail_in s).length + (stored_part (avail_in s)).length + 1) s = some r :=
      hr _ (Nat.lt_succ_self _)
    have hval : gzip_config.gunzip s = r := congrArg (·.getD s) hrun
    exact ⟨_, hval ▸ hrun⟩

theorem gzip_config_protobuf : gzip_config.codec.Protobuf where
  wire_type b rest hb := by
    have hkeys : ∀ p ∈ [sample_batch [] (lit "A"), sample_batch [] (lit "B"), sample_batch [1] [],
        sample_batch [1] (lit "B"), sample_batch [1, 2] (lit "B")], (p.1.headD 0).toNat % 8 < 6 := by decide
    refine List.lookup_eq_none_iff.2 fun p hp => bne_iff_ne.2 fun heq => ?_
    have hkey := hkeys p hp
    rw [← heq, List.headD_cons] at hkey
    omega
  payload_size raw frame h := by
    obtain ⟨l₁, l₂, heq, -⟩ := List.lookup_eq_some_iff.1 h
    have hmem : (raw, frame) ∈ [sample_frame (gzip_stored (sample_batch [1] (lit "B")).1)] := heq ▸ by simp
    obtain rfl : frame = _ := congrArg Prod.snd (List.mem_singleton.1 hmem)
    decide

theorem handle_gzip_frame : let frame := sample_frame (gzip_stored (sample_batch [1] (lit "B")).1)
    ws_handle_frame gzip_config frame.1 =
        (do sink gzip_config (lit "ws_frame") frame.1; handle_result gzip_config 0 (sample_batch [1] (lit "B")).2) ∧
      ¬ starts_like_gzip (sample_batch [1] (lit "B")).1 := by
  intro frame
  have hraw : gzip_config.codec.push_frame frame.1 = some frame.2 := by decide +kernel
  have hgzip : GzipOf stored (sample_batch [1] (lit "B")).1 frame.2.payload :=
    ⟨stored_complete (by decide), stored_part_gzip_stored (by decide), by decide⟩
  exact handle_frame_of_encoding gzip_config_inflates gzip_config_protobuf hraw rfl (by decide +kernel)
    (.gzip_detected hgzip (by decide))

end TtLive
