import TtLive.SignerEngine

/-!
# What the engine of a signer is asked

`Sound` is kept by every action of a signer; `Inv` says what a call finds: after a start that was carried out, an engine
that is ready, else one in which `acrawler-init` has not returned. A start is followed script by script (`Stage`).
-/

namespace TtLive.SignerEngine
open Prog QuickJsSigner
open Ledger (Holder balance)

abbrev watch : Monitor Act Act.Result Engine := .det Allowed Engine.next

/-! ### The pointers -/

structure Sound (g : Engine) : Prop where
  rt : g.rt.Owns g.runtimes
  ctx : g.ctx.Owns g.contexts

/-- Both pointers are set, and `scripts` is what was evaluated in the context. -/
structure Stage (g : Engine) (scripts : List (Script × Bool)) : Prop where
  sound : Sound g
  rt : g.rt.slot.isSome
  ctx : g.ctx.slot.isSome
  scripts_eq : g.scripts = scripts

variable {g : Engine} {scripts : List (Script × Bool)} {α : Type}

theorem Stage.evaluated (h : Stage g scripts) (script : Script) (returned : Bool) :
    Stage (g.evaluated script returned) (scripts ++ [(script, returned)]) where
  sound := ⟨h.sound.rt, h.sound.ctx.use h.ctx⟩
  rt := h.rt
  ctx := by rw [← h.ctx, Engine.evaluated, Holder.slot_use]
  scripts_eq := by rw [Engine.evaluated, h.scripts_eq]

theorem Stage.job (h : Stage g scripts) (n : Int) : Stage (g.next .execute_pending_job n) scripts where
  sound := ⟨h.sound.rt.use h.rt, h.sound.ctx⟩
  rt := by rw [← h.rt, Engine.next, Holder.slot_use]
  ctx := h.ctx
  scripts_eq := h.scripts_eq

/-! ### Scripts -/

/-- An evaluation leaves the stage one script further, whether it returned or threw. -/
theorem wp_eval_value {script : Script} {code : Bytes} {Q : Except Exn (Option Bytes) → Engine → Prop}
    (h : Stage g scripts) (hok : Allowed g (.eval script code))
    (hreturned : ∀ s g', Stage g' (scripts ++ [(script, true)]) → Q (.ok s) g')
    (hthrown : ∀ e g', Stage g' (scripts ++ [(script, false)]) → Q (.error e) g') :
    wp watch (eval_value script code).run Q g := by
  refine wp_run_bind.2 (wp_run_lift.2 (wp_perform.2 ⟨hok, ?_⟩))
  rintro (s | s) g' rfl
  · exact hthrown _ _ (h.evaluated script false)
  · exact hreturned _ _ (h.evaluated script true)

/-- No call has been made in a context while its start goes on. -/
theorem Starting.no_call {script : Script} (hs : Starting scripts script) : ∀ e ∈ scripts, ¬ e.1.OfCall := by
  obtain ⟨sdk, -, ⟨rest, hrest⟩, -⟩ := hs
  intro e he hcall
  have hmem : e.1 ∈ startup sdk := by
    rw [← hrest, List.append_assoc]
    exact List.mem_append_left _ (List.mem_map_of_mem he)
  rcases hcall with hcall | hcall
  · rw [hcall] at hmem
    simp [startup] at hmem
  · rw [hcall] at hmem
    simp [startup] at hmem

theorem wp_pending_jobs (left : Nat) (hnone : ∀ e ∈ scripts, ¬ e.1.OfCall) (h : Stage g scripts) :
    wp watch (pending_jobs left) (fun _ g' => Stage g' scripts) g := by
  induction left generalizing g with
  | zero => exact h
  | succ left ih =>
    refine ⟨⟨h.rt, h.scripts_eq ▸ hnone⟩, ?_⟩
    rintro (n : Int) g' rfl
    show wp watch (if n ≤ 0 then pure () else pending_jobs left) _ _
    split_ifs
    · exact h.job n
    · exact ih (h.job n)

/-- The next script of a start. -/
theorem Stage.starting (h : Stage g scripts) {script : Script} (hs : Starting scripts script)
    (hnot : ¬ script.OfCall) (code : Bytes) : Allowed g (.eval script code) :=
  ⟨h.ctx, fun hcall => absurd hcall hnot, fun _ => h.scripts_eq ▸ hs⟩

theorem wp_eval {script : Script} {code : Bytes} {Q : Except Exn Unit → Engine → Prop} (h : Stage g scripts)
    (hs : Starting scripts script) (hnot : ¬ script.OfCall)
    (hreturned : ∀ g', Stage g' (scripts ++ [(script, true)]) → Q (.ok ()) g')
    (hthrown : ∀ e g', Stage g' (scripts ++ [(script, false)]) → Q (.error e) g') :
    wp watch (eval script code).run Q g :=
  wp_run_bind.2 (wp_eval_value h (h.starting hs hnot code) (fun _ g' => hreturned g') hthrown)

theorem wp_drain (h : Stage g scripts) (hs : Starting scripts .drain_timeouts) :
    wp watch drain (fun _ g' => ∃ returned, Stage g' (scripts ++ [(.drain_timeouts, returned)])) g := by
  refine wp_bind.2 (wp_mono (wp_pending_jobs 40 hs.no_call h) fun _ g' h' => ⟨h'.starting hs ?_ drain_code, ?_⟩)
  · rintro (hcall | hcall) <;> cases hcall
  · rintro (s | s) g'' rfl
    · exact ⟨false, h'.evaluated .drain_timeouts false⟩
    · exact ⟨true, h'.evaluated .drain_timeouts true⟩

/-! ### The start -/

/-- What a call finds, and leaves. -/
def Inv (initialized_ : Bool) (g : Engine) : Prop :=
  Sound g ∧ if initialized_ then g.rt.slot.isSome ∧ g.ctx.slot.isSome ∧ Ready g.scripts
    else (.acrawler_init, true) ∉ g.scripts

/-- What a start leaves when it throws. -/
theorem Stage.inv_false (h : Stage g scripts) (hnot : (.acrawler_init, true) ∉ scripts) : Inv false g := by
  refine ⟨h.sound, ?_⟩
  rw [h.scripts_eq]
  exact hnot

def began : List (Script × Bool) := [(.stderr_stub, true), (.hybrid_fake_dom, true), (.global_alias, true)]

def loaded (sdk : List String) : List (Script × Bool) := began ++ sdk.map fun name => (.sdk name, true)

theorem returned_nil : Returned [] := nofun

theorem Returned.append {later : List (Script × Bool)} (h : Returned scripts) (hl : Returned later) :
    Returned (scripts ++ later) := by
  intro e he
  rcases List.mem_append.1 he with he | he
  · exact h e he
  · exact hl e he

theorem Returned.concat (h : Returned scripts) {script : Script} {returned : Bool}
    (hr : script ≠ .drain_timeouts → returned = true) : Returned (scripts ++ [(script, returned)]) := by
  refine h.append fun e he => ?_
  rw [List.mem_singleton.1 he]
  exact hr

theorem returned_loaded (sdk : List String) : Returned (loaded sdk) := by
  have hbegan : ∀ e ∈ began, e.2 = true := by decide
  intro e he _
  rcases List.mem_append.1 he with he | he
  · exact hbegan e he
  · obtain ⟨name, -, rfl⟩ := List.mem_map.1 he
    rfl

theorem not_init_loaded (sdk : List String) : (.acrawler_init, true) ∉ loaded sdk := by
  intro he
  rcases List.mem_append.1 he with he | he
  · revert he
    decide
  · obtain ⟨name, -, h⟩ := List.mem_map.1 he
    cases h

theorem map_loaded (sdk : List String) : (loaded sdk).map Prod.fst =
    [.stderr_stub, .hybrid_fake_dom, .global_alias] ++ sdk.map .sdk := by
  rw [loaded, List.map_append, List.map_map]
  rfl

theorem starting_sdk {sdk done names : List String} {name : String} (hk : done ++ name :: names = kSdkFiles)
    (hsub : sdk.Sublist done) : Starting (loaded sdk) (.sdk name) := by
  have hlt : (sdk ++ [name]).Sublist kSdkFiles := by
    rw [← hk]
    exact hsub.append (List.singleton_sublist.2 List.mem_cons_self)
  refine ⟨sdk ++ [name], hlt, ?_, returned_loaded sdk⟩
  rw [map_loaded, startup, List.map_append, List.append_assoc, List.append_assoc, List.append_assoc]
  exact List.prefix_append_right_inj _ |>.2 (List.prefix_append_right_inj _ |>.2 (List.prefix_append _ _))

theorem wp_read_file {path : String} {Q : Except Exn Bytes → Engine → Prop} (h : ∀ s, Q (.ok s) g)
    (hthrown : ∀ e, Q (.error e) g) : wp watch (read_file path).run Q g := by
  refine wp_run_bind.2 (wp_run_lift.2 (wp_perform.2 ⟨trivial, ?_⟩))
  rintro (_ | s) g' rfl
  · exact hthrown _
  · exact h s

/-- A file that is not there is passed over. -/
theorem wp_load_sdk {js_dir name : String} {sdk : List String} (hs : Starting (loaded sdk) (.sdk name))
    (h : Stage g (loaded sdk)) : wp watch (load_sdk js_dir name).run
      (orThrow (fun _ g' => Stage g' (loaded sdk) ∨ Stage g' (loaded (sdk ++ [name]))) fun _ => Inv false) g := by
  have hloaded : loaded (sdk ++ [name]) = loaded sdk ++ [(.sdk name, true)] := by
    rw [loaded, List.map_append, ← List.append_assoc]
    rfl
  have hnot : ¬ (Script.sdk name).OfCall := by rintro (h | h) <;> cases h
  refine wp_run_bind.2 (wp_run_lift.2 (wp_perform.2 ⟨trivial, ?_⟩))
  rintro (_ | s) g' rfl
  · exact .inl h
  · refine wp_run_bind.2 (wp_read_file (fun code => ?_) fun _ => h.inv_false (not_init_loaded sdk))
    refine wp_eval h hs hnot (fun g' h' => .inr (hloaded ▸ h')) fun _ g' h' => h'.inv_false fun he => ?_
    rcases List.mem_append.1 he with he | he
    · exact not_init_loaded sdk he
    · cases List.mem_singleton.1 he

theorem wp_load_sdks {js_dir : String} {sdk done names : List String} (hk : done ++ names = kSdkFiles)
    (hsub : sdk.Sublist done) (h : Stage g (loaded sdk)) :
    wp watch (forM names (load_sdk js_dir)).run
      (orThrow (fun _ g' => ∃ sdk, sdk.Sublist kSdkFiles ∧ Stage g' (loaded sdk)) fun _ => Inv false) g := by
  induction names generalizing sdk done g with
  | nil =>
    rw [List.append_nil] at hk
    exact ⟨sdk, hk ▸ hsub, h⟩
  | cons name names ih =>
    have hk' : done ++ [name] ++ names = kSdkFiles := by rw [List.append_assoc]; exact hk
    rw [List.forM_cons]
    refine wp_run_bind.2 (wp_mono (wp_load_sdk (starting_sdk hk hsub) h) ?_)
    rintro (e | _) g' h'
    · exact h'
    · rcases h' with h' | h'
      · exact ih hk' (hsub.trans (List.sublist_append_left done [name])) h'
      · exact ih hk' (hsub.append_right [name]) h'

/-- The scripts behind the SDK. -/
theorem starting_loaded {sdk : List String} (hsub : sdk.Sublist kSdkFiles) {done : List (Script × Bool)} {script : Script}
    (hdone : Returned done)
    (hp : done.map Prod.fst ++ [script] <+: [.drain_timeouts, .acrawler_init, .drain_timeouts]) :
    Starting (loaded sdk ++ done) script := by
  refine ⟨sdk, hsub, ?_, (returned_loaded sdk).append hdone⟩
  rw [List.map_append, map_loaded, startup, List.append_assoc]
  exact (List.prefix_append_right_inj _).2 hp

theorem wp_drain_then {Q : Engine → Prop} (h : Stage g scripts) (hs : Starting scripts .drain_timeouts)
    (hQ : ∀ returned g', Stage g' (scripts ++ [(.drain_timeouts, returned)]) → Q g') {E : Exn → Engine → Prop} :
    wp watch (ExceptT.lift drain : Throwing Unit).run (orThrow (fun _ => Q) E) g :=
  wp_run_lift.2 (wp_mono (wp_drain h hs) fun _ g' ⟨returned, h'⟩ => hQ returned g' h')

theorem wp_load {js_dir : String} (h : Stage g []) :
    wp watch (load js_dir).run (orThrow (fun _ => Inv true) fun _ => Inv false) g := by
  have hstub : Returned [(.stderr_stub, true)] := returned_nil.concat fun _ => rfl
  have hdom : Returned [(.stderr_stub, true), (.hybrid_fake_dom, true)] := hstub.concat fun _ => rfl
  have hfirst : ∀ e ∈ began, e.1.OfCall → False := by simp [began, Script.OfCall]
  -- the three scripts before the SDK
  refine wp_run_bind.2 (wp_eval h ⟨[], List.nil_sublist _, by decide, returned_nil⟩ (hfirst (_, true) (by decide))
    (fun g₁ h₁ => ?_) fun _ g₁ h₁ => h₁.inv_false (by decide))
  refine wp_run_bind.2 (wp_read_file (fun dom => ?_) fun _ => h₁.inv_false (by decide))
  refine wp_run_bind.2 (wp_eval h₁ ⟨[], List.nil_sublist _, by decide, hstub⟩ (hfirst (_, true) (by decide))
    (fun g₂ h₂ => ?_) fun _ g₂ h₂ => h₂.inv_false (by decide))
  refine wp_run_bind.2 (wp_eval h₂ ⟨[], List.nil_sublist _, by decide, hdom⟩ (hfirst (_, true) (by decide))
    (fun g₃ h₃ => ?_) fun _ g₃ h₃ => h₃.inv_false (by decide))
  refine wp_run_bind.2 (wp_mono (wp_load_sdks rfl (List.Sublist.refl []) h₃) ?_)
  rintro (e | _) g₄ h₄
  · exact h₄
  obtain ⟨sdk, hsub, h₄⟩ := h₄
  -- what comes behind it, where only the middle one can stop the start
  have hs₄ : Starting (loaded sdk) .drain_timeouts :=
    List.append_nil (loaded sdk) ▸ starting_loaded hsub returned_nil ⟨_, rfl⟩
  refine wp_run_bind.2 (wp_drain_then h₄ hs₄ fun drained g₅ h₅ => ?_)
  have hdrained : Returned [(.drain_timeouts, drained)] := returned_nil.concat (absurd rfl)
  have hs₅ : Starting (loaded sdk ++ [(.drain_timeouts, drained)]) .acrawler_init :=
    starting_loaded hsub hdrained ⟨_, rfl⟩
  refine wp_run_bind.2 (wp_eval h₅ hs₅ (by rintro (h | h) <;> cases h) (fun g₆ h₆ => ?_) fun _ g₆ h₆ =>
    h₆.inv_false ?_)
  · have hinit : Returned [(.drain_timeouts, drained), (.acrawler_init, true)] := hdrained.concat fun _ => rfl
    rw [List.append_assoc] at h₆
    refine wp_drain_then h₆ (starting_loaded hsub hinit ⟨_, rfl⟩) fun drained' g₇ h₇ => ?_
    refine ⟨h₇.sound, h₇.rt, h₇.ctx, ?_⟩
    rw [h₇.scripts_eq]
    refine ⟨sdk, _, [], hsub, (List.append_nil _).symm, ?_, ?_, nofun⟩
    · rw [List.map_append, List.map_append, map_loaded, List.append_assoc]
      rfl
    · exact ((returned_loaded sdk).append hinit).concat (absurd rfl)
  · rw [List.mem_append, List.mem_append]
    rintro ((he | he) | he)
    · exact not_init_loaded sdk he
    · cases List.mem_singleton.1 he
    · cases List.mem_singleton.1 he

theorem wp_ensure_initialized {js_dir : String} {initialized_ : Bool} (h : Inv initialized_ g) :
    wp watch (ensure_initialized js_dir initialized_).run
      (orThrow (fun _ => Inv true) fun _ => Inv initialized_) g := by
  cases initialized_ with
  | true => exact h
  | false =>
    obtain ⟨hsound, hnot⟩ := h
    refine wp_run_bind.2 (wp_run_lift.2 (wp_perform.2 ⟨hnot, ?_⟩))
    rintro (_ | _) g₁ rfl
    · exact ⟨⟨hsound.rt.forget, hsound.ctx⟩, hnot⟩
    · have hrt := hsound.rt.take
      refine wp_run_bind.2 (wp_run_lift.2 (wp_perform.2 ⟨rfl, ?_⟩))
      rintro (_ | _) g₂ rfl
      · exact ⟨⟨hrt.use rfl, hsound.ctx.forget⟩, List.not_mem_nil⟩
      · exact wp_load ⟨⟨hrt.use rfl, hsound.ctx.take⟩, rfl, rfl, rfl⟩

/-! ### The calls -/

theorem Ready.concat (h : Ready scripts) {script : Script} (hcall : script.OfCall) (returned : Bool) :
    Ready (scripts ++ [(script, returned)]) := by
  obtain ⟨sdk, started, later, hsub, rfl, hstarted, hreturned, hlater⟩ := h
  refine ⟨sdk, started, later ++ [(script, returned)], hsub, List.append_assoc .., hstarted, hreturned, fun e he => ?_⟩
  rcases List.mem_append.1 he with he | he
  · exact hlater e he
  · rw [List.mem_singleton.1 he]
    exact hcall

theorem Inv.evaluated {script : Script} (h : Inv true g) (hcall : script.OfCall) (returned : Bool) :
    Inv true (g.evaluated script returned) := by
  obtain ⟨hsound, hrt, hctx, hready⟩ := h
  have hstage := (Stage.mk hsound hrt hctx rfl).evaluated script returned
  exact ⟨hstage.sound, hstage.rt, hstage.ctx, hstage.scripts_eq ▸ hready.concat hcall returned⟩

theorem Inv.allowed {script : Script} (h : Inv true g) (hcall : script.OfCall) (code : Bytes) :
    Allowed g (.eval script code) := ⟨h.2.2.1, fun _ => h.2.2.2, absurd hcall⟩

theorem wp_set_cookies {js_dir : String} {initialized_ : Bool} {cookie_header : Bytes} (h : Inv initialized_ g) :
    wp watch (set_cookies js_dir initialized_ cookie_header) (fun r => Inv r.2) g := by
  refine wp_bind.2 (wp_mono (wp_ensure_initialized h) ?_)
  rintro (e | _) g₁ h₁
  · exact h₁
  · refine ⟨h₁.allowed (.inl rfl) (set_cookies_script cookie_header), ?_⟩
    rintro (s | s) g₂ rfl
    · exact h₁.evaluated (.inl rfl) false
    · exact h₁.evaluated (.inl rfl) true

theorem wp_signed_url {url : Bytes} (h : Inv true g) : wp watch (signed_url url).run (fun _ => Inv true) g := by
  have hallowed := h.allowed (.inr rfl) (sign_script url)
  refine wp_run_bind.2 (wp_run_bind.2 (wp_run_bind.2 (wp_run_lift.2 (wp_perform.2 ⟨hallowed, ?_⟩))))
  rintro (s | s) g₁ rfl
  · exact h.evaluated (.inr rfl) false
  · show wp watch (ExceptT.run (if s.getD [] = [] then _ else _)) _ _
    split_ifs
    · exact h.evaluated (.inr rfl) true
    · exact h.evaluated (.inr rfl) true

theorem wp_sign {js_dir : String} {initialized_ : Bool} {url : Bytes} (h : Inv initialized_ g) :
    wp watch (sign js_dir initialized_ url) (fun r => Inv r.2) g := by
  refine wp_bind.2 (wp_mono (wp_ensure_initialized h) ?_)
  rintro (e | _) g₁ h₁
  · exact h₁
  · exact wp_bind.2 (wp_mono (wp_signed_url h₁) fun _ _ h₂ => h₂)

theorem wp_calls {js_dir : String} {calls : List Call} {initialized_ : Bool} (h : Inv initialized_ g) :
    wp watch (calls.foldlM (Call.run js_dir) initialized_) Inv g := by
  refine wp_foldlM (fun _ => Inv) (fun c _ initialized_ g h => ?_) h
  cases c with
  | set_cookies cookie_header => exact wp_bind.2 (wp_set_cookies h)
  | sign url => exact wp_bind.2 (wp_sign h)

theorem inv_init : Inv false {} := ⟨⟨Holder.owns_init, Holder.owns_init⟩, List.not_mem_nil⟩

/-- What is allocated when a signer is gone, of what its attempts to get it gave. -/
def Left (h : Holder) (got : List Bool) : Prop :=
  ∃ b, balance h.steps = some b ∧ b.live.length = got.dropLast.count true

theorem wp_life (js_dir : String) (calls : List Call) :
    wp watch (life js_dir calls) (fun _ g => Left g.rt g.runtimes ∧ Left g.ctx g.contexts) {} := by
  refine wp_bind.2 (wp_mono (wp_calls inv_init) fun initialized_ g h => ⟨trivial, ?_⟩)
  rintro _ g' rfl
  exact ⟨h.1.rt.left, h.1.ctx.left⟩

variable {js_dir : String} {calls : List Call}

/-- In every run of a signer, whatever QuickJS answers and whichever files are there: only what is allocated is used, the
scripts of a start are evaluated in their order and only while none has thrown, a call's script only behind a start that
was carried out, pending jobs are executed only before the first call, and a runtime is made only while `acrawler-init`
has not returned in the context that is held. -/
theorem engine_asks {pre post : List (Ev Act.Result)} {a : Act} {r : a.Result} {q : Code Unit}
    (h : Runs (life js_dir calls) (pre ++ ⟨a, r⟩ :: post) q) : Allowed (Monitor.after Engine.next {} pre) a :=
  Monitor.ok_of_runs (wp_life js_dir calls) h

/-- QuickJS always succeeds, and the files are there or not. -/
def answer (files : Option Bytes) : (a : Act) → a.Result
  | .new_runtime | .new_context => true
  | .open_file _ => files
  | .eval _ _ => .ok (some [0x75])
  | .execute_pending_job => 0
  | .delete_impl => ()

/-- The first start does not find the DOM, the second one finds everything. -/
def retried : List ((a : Act) → a.Result) := List.replicate 4 (answer none) ++ List.replicate 26 (answer (some []))

def retried_calls : List Call := [.sign [0x75], .sign [0x75]]

theorem engine_asks_retried :
    Allowed (Monitor.after Engine.next {} (exec retried (life "js" retried_calls)).1) (.eval .sign (sign_script [0x75])) := by
  have hpending : pending (exec retried (life "js" retried_calls)).2 = some (.eval .sign (sign_script [0x75])) := rfl
  obtain ⟨q, hq⟩ := runs_exec_pending hpending (.ok none)
  exact engine_asks hq

/-- In every run of a signer to its end, nothing is used or freed that is not allocated, and of the runtimes and of the
contexts those stay allocated that another attempt followed. -/
theorem engine_left {tr : List (Ev Act.Result)} (h : Runs (life js_dir calls) tr (ret ())) :
    let g := Monitor.after Engine.next {} tr
    Left g.rt g.runtimes ∧ Left g.ctx g.contexts :=
  Monitor.post_of_runs (wp_life js_dir calls) h

theorem engine_left_retried :
    let run := exec (retried ++ List.replicate 2 (answer none)) (life "js" retried_calls)
    let g := Monitor.after Engine.next {} run.1
    (Left g.rt g.runtimes ∧ Left g.ctx g.contexts) ∧ g.runtimes.dropLast = [true] ∧ g.contexts.dropLast = [true] := by
  have hrun := runs_exec (retried ++ List.replicate 2 (answer none)) (life "js" retried_calls)
  exact ⟨engine_left hrun, rfl, rfl⟩

end TtLive.SignerEngine
