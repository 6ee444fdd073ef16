import RelayQ.Api.ScriptCache

/-! # Limiters that outlive the script cache

A limiter loads the script with its first call and never again. When the server has lost the script
since, the limiter goes on naming it, and only the first call of another limiter brings it back.

* `LimiterEvent.Calls`, `LimiterEvent.Loaded`: who has called, and whether the script is still there.
* `LimiterState.served_iff`: what decides whether a call is answered.
* `LimiterState.answers_iff`: every call is answered exactly if none comes from an older limiter
  while the script is gone. -/

namespace RelayQ

namespace LimiterEvent

variable {ι : Type}

/-- The event empties the script cache. -/
def Loses : LimiterEvent ι → Prop
  | .allow _ _ _ => False
  | .flush | .restart _ => True

/-- The limiter has called. -/
def Calls (i : ι) (es : List (LimiterEvent ι)) : Prop := ∃ time cost, .allow i time cost ∈ es

/-- Some limiter made its first call after the last loss, or there was no loss and the script was
there to begin with. -/
def Loaded (present : Prop) (es : List (LimiterEvent ι)) : Prop :=
  (present ∧ ∀ e ∈ es, ¬ e.Loses) ∨
    ∃ before j time cost since, es = before ++ .allow j time cost :: since ∧ ¬ Calls j before ∧
      ∀ e ∈ since, ¬ e.Loses

variable {i j : ι} {time cost : ℚ} {e : LimiterEvent ι} {es : List (LimiterEvent ι)} {present : Prop}

/-- A call is a call of its limiter only. -/
theorem calls_concat_allow :
    Calls i (es ++ [.allow j time cost]) ↔ Calls i es ∨ i = j := by
  constructor
  · rintro ⟨t, c, hmem⟩
    rcases List.mem_append.mp hmem with hmem | hmem
    · exact .inl ⟨t, c, hmem⟩
    · cases List.mem_singleton.mp hmem
      exact .inr rfl
  · rintro (⟨t, c, hmem⟩ | rfl)
    · exact ⟨t, c, List.mem_append_left _ hmem⟩
    · exact ⟨time, cost, by simp⟩

/-- A loss is not a call. -/
theorem calls_concat_loss (he : e.Loses) : Calls i (es ++ [e]) ↔ Calls i es := by
  constructor
  · rintro ⟨t, c, hmem⟩
    rcases List.mem_append.mp hmem with hmem | hmem
    · exact ⟨t, c, hmem⟩
    · obtain rfl := List.mem_singleton.mp hmem
      exact he.elim
  · rintro ⟨t, c, hmem⟩
    exact ⟨t, c, List.mem_append_left _ hmem⟩

/-- Where a list with a last event can be split: at that event or before it. -/
theorem concat_split {x : LimiterEvent ι} {before since : List (LimiterEvent ι)}
    (h : es ++ [e] = before ++ x :: since) :
    (es = before ∧ e = x) ∨ ∃ rest, since = rest ++ [e] ∧ es = before ++ x :: rest := by
  rcases since.eq_nil_or_concat with rfl | ⟨rest, last, rfl⟩
  · obtain ⟨rfl, hlast⟩ := List.append_inj' h rfl
    exact .inl ⟨rfl, List.singleton_inj.mp hlast⟩
  · rw [List.concat_eq_append, ← List.cons_append, ← List.append_assoc] at h
    obtain ⟨rfl, hlast⟩ := List.append_inj' h rfl
    obtain rfl := List.singleton_inj.mp hlast
    exact .inr ⟨rest, List.concat_eq_append, rfl⟩

/-- A call keeps the script, and loads it if it is the first of its limiter. -/
theorem loaded_concat_allow :
    Loaded present (es ++ [.allow j time cost]) ↔ ¬ Calls j es ∨ Loaded present es := by
  have hkept : ¬ (LimiterEvent.allow j time cost).Loses := fun h => h
  constructor
  · rintro (⟨hp, hno⟩ | ⟨before, k, t, c, since, heq, hfirst, hno⟩)
    · exact .inr (.inl ⟨hp, fun e he => hno e (List.mem_append_left _ he)⟩)
    · -- the loading call is the last one, or an earlier one
      rcases concat_split heq with ⟨rfl, hlast⟩ | ⟨rest, rfl, rfl⟩
      · cases hlast
        exact .inl hfirst
      · exact .inr (.inr ⟨before, k, t, c, rest, rfl, hfirst, fun e he => hno e (by simp [he])⟩)
  · rintro (hfirst | ⟨hp, hno⟩ | ⟨before, k, t, c, since, rfl, hfirst, hno⟩)
    · exact .inr ⟨es, j, time, cost, [], rfl, hfirst, by simp⟩
    · refine .inl ⟨hp, fun e he => ?_⟩
      rcases List.mem_append.mp he with he | he
      · exact hno e he
      · exact List.mem_singleton.mp he ▸ hkept
    · refine .inr ⟨before, k, t, c, since ++ [.allow j time cost], by simp, hfirst,
        fun e he => ?_⟩
      rcases List.mem_append.mp he with he | he
      · exact hno e he
      · exact List.mem_singleton.mp he ▸ hkept

/-- After a loss the script is gone. -/
theorem not_loaded_concat_loss (he : e.Loses) : ¬ Loaded present (es ++ [e]) := by
  rintro (⟨-, hno⟩ | ⟨before, k, t, c, since, heq, -, hno⟩)
  · exact hno e (by simp) he
  · rcases concat_split heq with ⟨-, rfl⟩ | ⟨rest, rfl, -⟩
    · exact he
    · exact hno e (by simp) he

end LimiterEvent

namespace LimiterState

open LimiterEvent

variable {ι : Type} [DecidableEq ι] {sha : String}

/-- New limiters, by key and parameters, on a server. -/
def start (srv : ScriptServer) (config : ι → String × TokenBucketRateLimiter) : LimiterState ι :=
  ⟨srv, fun i => { key := (config i).1, params := (config i).2 }⟩

/-- The state after a list of events. -/
def after (sha : String) (s : LimiterState ι) (es : List (LimiterEvent ι)) : LimiterState ι :=
  es.foldl (step sha) s

/-- The last event is the last step. -/
@[simp] theorem after_concat (s : LimiterState ι) (es : List (LimiterEvent ι)) (e : LimiterEvent ι) :
    s.after sha (es ++ [e]) = (s.after sha es).step sha e := by
  simp [after]

/-- Every call of the list is answered as the script decides on the bucket of that moment. -/
def Answers (sha : String) (s : LimiterState ι) (es : List (LimiterEvent ι)) : Prop :=
  ∀ pre i time cost post, es = pre ++ .allow i time cost :: post →
    (((s.after sha pre).limiters i).allow sha (s.after sha pre).server time cost).2.2 =
      .ok (((s.after sha pre).limiters i).decision (s.after sha pre).server time cost)

variable (sha) (srv : ScriptServer) (config : ι → String × TokenBucketRateLimiter)

/-- A limiter remembers the digest from its first call on. -/
theorem scriptHash_after (es : List (LimiterEvent ι)) (i : ι) :
    (Calls i es → (((start srv config).after sha es).limiters i).scriptHash = some sha) ∧
    (¬ Calls i es → (((start srv config).after sha es).limiters i).scriptHash = none) := by
  induction es using List.reverseRecOn with
  | nil => exact ⟨fun ⟨_, _, h⟩ => absurd h (by simp), fun _ => rfl⟩
  | append_singleton es e ih =>
    rw [after_concat]
    cases e with
    | allow j time cost =>
      rw [calls_concat_allow]
      by_cases hij : i = j
      · subst hij
        refine ⟨fun _ => ?_, fun h => absurd (.inr rfl) h⟩
        simp only [step, Function.update_self, ScriptedLimiter.allow_scriptHash]
        -- a first call loads the script, a later one finds the digest
        by_cases hcalls : Calls i es
        · simp [ih.1 hcalls]
        · simp [ih.2 hcalls]
      · simpa [step, Function.update_of_ne hij, hij] using ih
    | flush => simpa [calls_concat_loss (e := .flush) trivial, step] using ih
    | restart buckets =>
      simpa [calls_concat_loss (e := .restart buckets) trivial, step] using ih

/-- The server has the script where it was loaded since the last loss. -/
theorem mem_cached_after (es : List (LimiterEvent ι)) :
    sha ∈ ((start srv config).after sha es).server.cached ↔ Loaded (sha ∈ srv.cached) es := by
  induction es using List.reverseRecOn with
  | nil => simp [after, start, Loaded]
  | append_singleton es e ih =>
    rw [after_concat]
    cases e with
    | allow j time cost =>
      rw [loaded_concat_allow, ← ih]
      simp only [step, ScriptedLimiter.mem_cached_allow]
      have hhash := scriptHash_after sha srv config es j
      by_cases hcalls : Calls j es
      · simp [hhash.1 hcalls, hcalls]
      · simp [hhash.2 hcalls, hcalls]
    | flush => simp [step, not_loaded_concat_loss (e := .flush) trivial]
    | restart buckets => simp [step, not_loaded_concat_loss (e := .restart buckets) trivial]

/-- A limiter is served on its first call and while the script is there. -/
theorem served_iff (es : List (LimiterEvent ι)) (i : ι) :
    (((start srv config).after sha es).limiters i).Served ((start srv config).after sha es).server ↔
      (Calls i es → Loaded (sha ∈ srv.cached) es) := by
  have hhash := scriptHash_after sha srv config es i
  rw [← mem_cached_after sha srv config, ScriptedLimiter.Served]
  by_cases hcalls : Calls i es
  · simp [hhash.1 hcalls, hcalls]
  · simp [hhash.2 hcalls, hcalls]

/-- **Limiters survive a loss exactly as far as others reload the script.** For new limiters on any
server and any list of calls and losses: every call is answered, as the script decides on the current
bucket, if and only if each is the first one of its limiter, or made while the script is loaded. -/
theorem answers_iff (sha : String) (srv : ScriptServer) (config : ι → String × TokenBucketRateLimiter)
    (es : List (LimiterEvent ι)) :
    (start srv config).Answers sha es ↔
      ∀ pre i time cost post, es = pre ++ .allow i time cost :: post →
        Calls i pre → Loaded (sha ∈ srv.cached) pre := by
  refine forall_congr' fun pre => forall_congr' fun i => forall_congr' fun time =>
    forall_congr' fun cost => forall_congr' fun post => imp_congr_right fun _ => ?_
  rw [← served_iff sha srv config, ScriptedLimiter.allow_result]
  by_cases hserved : (((start srv config).after sha pre).limiters i).Served
      ((start srv config).after sha pre).server
  · simp [hserved]
  · simp [hserved]

/-- A limiter calls, the cache is flushed, and the limiter calls again. -/
theorem not_answers : ¬ ∀ (sha : String) (srv : ScriptServer)
    (config : Unit → String × TokenBucketRateLimiter) (es : List (LimiterEvent Unit)),
      (start srv config).Answers sha es := by
  intro h
  have hcall := h "sha" ⟨[], fun _ => .absent⟩ (fun _ => ("ratelimit:api", ⟨100, 150⟩))
    [.allow () 0 1, .flush, .allow () 1 1] [.allow () 0 1, .flush] () 1 1 [] rfl
  rw [ScriptedLimiter.allow_result, if_neg] at hcall
  · cases hcall
  · intro hserved
    exact absurd (hserved "sha" (by decide)) (by decide)

/-- **The loss is for good.** Limiters that called before a loss get `NOSCRIPT` from then on, however
often they call, as long as no new limiter does. -/
theorem allow_lost {before since : List (LimiterEvent ι)} {e : LimiterEvent ι} (he : e.Loses)
    (hold : ∀ j, Calls j since → Calls j before) {i : ι} (hi : Calls i before) (time cost : ℚ) :
    ((((start srv config).after sha (before ++ e :: since)).limiters i).allow sha
      ((start srv config).after sha (before ++ e :: since)).server time cost).2.2 = .error noScript := by
  rw [ScriptedLimiter.allow_result, if_neg]
  have hgone : ¬ Loaded (sha ∈ srv.cached) (before ++ e :: since) := by
    induction since using List.reverseRecOn with
    | nil => exact not_loaded_concat_loss he
    | append_singleton since last ih =>
      have hprefix : ∀ j, Calls j since → Calls j before := fun j ⟨t, c, h⟩ =>
        hold j ⟨t, c, List.mem_append_left _ h⟩
      rw [← List.cons_append, ← List.append_assoc]
      cases last with
      | allow j t c =>
        -- whoever calls has called before the loss
        obtain ⟨t', c', hj⟩ := hold j ⟨t, c, by simp⟩
        rw [loaded_concat_allow]
        exact not_or.mpr ⟨not_not.mpr ⟨t', c', by simp [hj]⟩, ih hprefix⟩
      | flush => exact not_loaded_concat_loss trivial
      | restart buckets => exact not_loaded_concat_loss trivial
  obtain ⟨t, c, hmem⟩ := hi
  exact fun hserved => hgone ((served_iff sha srv config _ _).mp hserved ⟨t, c, by simp [hmem]⟩)

end LimiterState

end RelayQ
