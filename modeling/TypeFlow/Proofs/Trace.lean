import TypeFlow.Proofs.Unification

/-!
# TypeFlow.Proofs.Trace

The trace of a unifier tells what happened and has no part in it.  A run is
`Faithful` when its steps can be believed: on success they name just the bindings
that were made, on failure they end in the one step that failed.  A unifier that
is told to record writes such steps down, numbered from one, and answers as one
that is not.

* `Subst.Gained` — the bindings made between two states, each once;
* `faithful_unifyAt` — what the steps of a run say, at any number of levels;
* `Unifier.perform` — all that can be asked of a unifier, one command at a time;
* `history_filter` — commands to record change nothing but the trace;
* `Unifier.trace_faithful` — the trace over a whole life.
-/

namespace TypeFlow

/-! ## bindings that are made -/

namespace Subst

/-- The bindings that `s'` has besides those of `s`, all of which it keeps, are
the ones in `made`, each once. -/
structure Gained (made : List (String × Ty)) (s s' : Subst) : Prop where
  keeps : Extends s' s
  nodup : (made.map Prod.fst).Nodup
  mem_iff : ∀ v t, (v, t) ∈ made ↔ NameMap.find? s v = none ∧ NameMap.find? s' v = some t

/-- Where nothing changes, nothing is gained. -/
theorem gained_nil (s : Subst) : Gained [] s s where
  keeps := .refl s
  nodup := List.nodup_nil
  mem_iff := by simp +contextual

/-- A binding of a free variable is all that is gained by it. -/
theorem gained_insert {s : Subst} {v : String} (hfree : NameMap.find? s v = none) (t : Ty) :
    Gained [(v, t)] s (NameMap.insert s v t) where
  keeps := extends_insert hfree t
  nodup := by simp
  mem_iff n u := by
    rw [List.mem_singleton, Prod.mk.injEq, NameMap.find?_insert]
    by_cases heq : v = n
    · subst heq
      simp [hfree, eq_comm]
    · simp +contextual [heq, Ne.symm heq]

/-- What is gained on a way in two parts. -/
theorem Gained.append {xs ys : List (String × Ty)} {s s₁ s₂ : Subst} (h : Gained xs s s₁)
    (h' : Gained ys s₁ s₂) : Gained (xs ++ ys) s s₂ where
  keeps := h'.keeps.trans h.keeps
  nodup := by
    rw [List.map_append, List.nodup_append]
    refine ⟨h.nodup, h'.nodup, ?_⟩
    -- a name gained first is bound when the second part starts
    rintro v hx _ hy rfl
    obtain ⟨p, hp, rfl⟩ := List.mem_map.mp hx
    obtain ⟨q, hq, hname⟩ := List.mem_map.mp hy
    have hbound := ((h.mem_iff p.1 p.2).mp hp).2
    have hfree := ((h'.mem_iff q.1 q.2).mp hq).1
    rw [hname, hbound] at hfree
    contradiction
  mem_iff v t := by
    rw [List.mem_append, h.mem_iff, h'.mem_iff]
    constructor
    · rintro (⟨hfree, hbound⟩ | ⟨hfree, hbound⟩)
      · exact ⟨hfree, h'.keeps v t hbound⟩
      · refine ⟨Option.eq_none_iff_forall_ne_some.mpr fun u hu => ?_, hbound⟩
        rw [h.keeps v u hu] at hfree
        contradiction
    · rintro ⟨hfree, hbound⟩
      cases hmid : NameMap.find? s₁ v with
      | none => exact .inr ⟨rfl, hbound⟩
      | some u =>
          have hu := h'.keeps v u hmid
          rw [hbound] at hu
          exact .inl ⟨hfree, hu.symm⟩

end Subst

/-! ## runs that can be believed -/

/-- The binding that a step makes. -/
def Step.binding? : Step → Option (String × Ty)
  | bind v got => some (v, got)
  | _ => none

namespace Run

/-- A run from `s` whose steps tell how it ends: if it succeeds then no step is a
failure and the bindings made are those gained; if not then the failure is the
last step and the only one. -/
inductive Faithful (s : Subst) : Run → Prop where
  | granted {steps : List Step} {s' : Subst} (hsteps : ∀ step ∈ steps, step.action ≠ .failure)
      (hgained : Subst.Gained (steps.filterMap Step.binding?) s s') : Faithful s ⟨steps, .ok s'⟩
  | refused {steps : List Step} (want got : Ty) (error : UnifyError)
      (hsteps : ∀ step ∈ steps, step.action ≠ .failure) :
      Faithful s ⟨steps ++ [.failure want got error], .error error⟩

/-- A single step without a failure or a binding can be believed. -/
theorem faithful_done {step : Step} (haction : step.action ≠ .failure)
    (hbinding : step.binding? = none) (s : Subst) : Faithful s (done step s) := by
  refine .granted (by simpa using haction) ?_
  rw [List.filterMap_cons_none hbinding]
  exact Subst.gained_nil s

/-- A single failure can be believed. -/
theorem faithful_failed (want got : Ty) (error : UnifyError) (s : Subst) :
    Faithful s (failed want got error) :=
  @Faithful.refused s [] want got error (by simp)

/-- A run in two parts can be believed when both can: no failure comes before the second
part, and what is gained adds up. -/
theorem Faithful.andThen {s : Subst} {r : Run} {next : Subst → Run} (hr : Faithful s r)
    (hnext : ∀ s', Faithful s' (next s')) : Faithful s (r.andThen next) := by
  cases hr with
  | refused want got error hsteps => exact .refused want got error hsteps
  | @granted steps s' hsteps hgained =>
      rw [andThen_ok rfl]
      have hrest := hnext s'
      generalize next s' = r' at hrest ⊢
      cases hrest with
      | granted hsteps' hgained' =>
          refine .granted (List.forall_mem_append.mpr ⟨hsteps, hsteps'⟩) ?_
          rw [List.filterMap_append]
          exact hgained.append hgained'
      | refused want got error hsteps' =>
          simp only [← List.append_assoc]
          exact .refused want got error (List.forall_mem_append.mpr ⟨hsteps, hsteps'⟩)

/-- Runs over a list can be believed when each of them can. -/
theorem faithful_each {α : Type} {run : α → Subst → Run} (h : ∀ a s, Faithful s (run a s))
    (as : List α) (s : Subst) : Faithful s (each run as s) := by
  induction as generalizing s with
  | nil => exact .granted (by simp) (Subst.gained_nil s)
  | cons a as ih => exact (h a s).andThen ih

end Run

namespace Ty

/-- A variable is bound when it is free, matched with its type when it is bound to that,
and otherwise refused. -/
theorem faithful_bindVar (v : String) (got : Ty) (s : Subst) :
    Run.Faithful s (bindVar v got s) := by
  unfold bindVar
  split
  · next hfree => exact .granted (by simp [Step.action]) (Subst.gained_insert hfree got)
  · split
    · exact Run.faithful_done (by simp [Step.action]) rfl s
    · exact Run.faithful_failed _ _ _ s

/-- A level can be believed when every run over parts can. -/
theorem Stage.faithful {pairs : List (Ty × Ty) → Subst → Run} {want got : Ty} {run : Subst → Run}
    (h : Stage pairs want got run) (hpairs : ∀ ps s, Run.Faithful s (pairs ps s)) (s : Subst) :
    Run.Faithful s (run s) := by
  cases h with
  | @var v _ _ => exact faithful_bindVar v got s
  | done hstep =>
      rcases hstep with rfl | rfl
      · exact Run.faithful_done (by simp [Step.action]) rfl s
      · exact Run.faithful_done (by simp [Step.action]) rfl s
  | refused error => exact Run.faithful_failed want got error s
  | @parts ps _ =>
      exact (Run.faithful_done (by simp [Step.action]) rfl s).andThen (hpairs ps)

/-- **The steps of a run can be believed**, with any number of levels. -/
theorem faithful_unifyAt (limit budget : Nat) (want got : Ty) (s : Subst) :
    Run.Faithful s (unifyAt limit budget want got s) := by
  induction budget generalizing want got s with
  | zero => exact Run.faithful_failed want got _ s
  | succ budget ih =>
      refine (stage_unifyAt limit budget want got).faithful (fun ps s => ?_) s
      exact Run.faithful_each (fun p s => ih p.1 p.2 s) ps s

end Ty

/-- The steps of a request can be believed, also when the modifiers of two references
are refused before anything is unified. -/
theorem Request.faithful_run (limits : Limits) (s : Subst) (r : Request) :
    Run.Faithful s (r.run limits s) := by
  cases r with
  | types w g => exact Ty.faithful_unifyAt _ _ w g s
  | refs w g =>
      rw [run, TyRef.unify]
      split
      · exact Ty.faithful_unifyAt _ _ w.ty g.ty s
      · exact Run.faithful_failed _ _ _ s

/-! ## records of steps -/

theorem Ty.render_named (n : String) : (Ty.named n).render = n := String.ofList_toList

/-- A record of a binding, as the two texts that it shows. -/
def TraceEntry.binding? (e : TraceEntry) : Option (String × String) :=
  if e.action = .bind then some (e.want, e.got) else none

/-- The texts of a binding. -/
def bindingTexts (b : String × Ty) : String × String := (b.1, b.2.render)

/-- The record of a step shows the binding that the step makes, and no other. -/
theorem TraceEntry.binding?_ofStep (count : Nat) (step : Step) :
    (ofStep count step).binding? = step.binding?.map bindingTexts := by
  cases step with
  | bind v got => simp [binding?, ofStep, Step.action, Step.want, Step.got, Step.binding?,
      bindingTexts, Ty.render_named]
  | identity _ _ => rfl
  | wildcard _ _ => rfl
  | boundMatch _ _ _ => rfl
  | decompose _ _ => rfl
  | failure _ _ _ => rfl

namespace Unifier

/-- The numbers go on where they ended. -/
theorem number_append (count : Nat) (steps steps' : List Step) :
    number count (steps ++ steps') =
      number count steps ++ number (count + steps.length) steps' := by
  induction steps generalizing count with
  | nil => rfl
  | cons step steps ih =>
      rw [List.cons_append, number, number, ih, List.length_cons, List.cons_append]
      congr 3
      omega

@[simp] theorem length_number (count : Nat) (steps : List Step) :
    (number count steps).length = steps.length := by
  induction steps generalizing count with
  | nil => rfl
  | cons step steps ih => rw [number, List.length_cons, List.length_cons, ih]

/-- Steps that are written down after `count` others are numbered from `count + 1` on,
without gaps. -/
theorem map_number (count : Nat) (steps : List Step) :
    (number count steps).map TraceEntry.number = List.range' (count + 1) steps.length := by
  induction steps generalizing count with
  | nil => rfl
  | cons step steps ih => rw [number, List.map_cons, ih, List.length_cons, List.range'_succ]; rfl

/-- Every step is written down with its action. -/
theorem map_action_number (count : Nat) (steps : List Step) :
    (number count steps).map TraceEntry.action = steps.map Step.action := by
  induction steps generalizing count with
  | nil => rfl
  | cons step steps ih => rw [number, List.map_cons, ih, List.map_cons]; rfl

/-- The bindings in a record of steps are those of the steps, as texts. -/
theorem filterMap_binding?_number (count : Nat) (steps : List Step) :
    (number count steps).filterMap TraceEntry.binding? =
      (steps.filterMap Step.binding?).map bindingTexts := by
  induction steps generalizing count with
  | nil => rfl
  | cons step steps ih =>
      rw [number, List.filterMap_cons, List.filterMap_cons, TraceEntry.binding?_ofStep, ih]
      cases step.binding? with
      | none => rfl
      | some b => rfl

/-- An action that no step takes is in no record. -/
theorem action_ne_of_mem_number {count : Nat} {steps : List Step} {action : Action}
    (h : ∀ step ∈ steps, step.action ≠ action) : ∀ e ∈ number count steps, e.action ≠ action := by
  have hactions : ∀ a ∈ (number count steps).map TraceEntry.action, a ≠ action := by
    rw [map_action_number]
    exact List.forall_mem_map.mpr h
  exact fun e he => hactions _ (List.mem_map_of_mem he)

end Unifier

/-! ## the commands of a unifier -/

/-- What comes back from a command. -/
inductive Reply where
  | nothing
  | outcome (result : Except UnifyError Unit)
  | flag (holds : Bool)
  | found (type : Option Ty)
  | count (size : Nat)
  | type (type : Ty)
  | ref (ref : TyRef)

/-- What can be done with bindings alone. -/
inductive Subst.Use where
  | bind (var : String) (type : Ty)
  | lookup (var : String)
  | size
  | apply (type : Ty)
  | applyRef (ref : TyRef)
  | unify (want got : Ty)

/-- Uses the bindings, which may change. -/
def Subst.use (s : Subst) : Use → Reply × Subst
  | .bind v t => (.nothing, NameMap.insert s v t)
  | .lookup v => (.found (NameMap.find? s v), s)
  | .size => (.count s.length, s)
  | .apply t => (.type (s.apply t), s)
  | .applyRef r => (.ref (s.applyRef r), s)
  | .unify w g => (.flag (s.unify w g).1, (s.unify w g).2)

/-- What a unifier can be told to do. -/
inductive Command where
  /-- Record the steps from now on. -/
  | traceOn
  | ask (request : Request)
  | instantiate (ref : TyRef)
  /-- Something that goes past the unifier, to its bindings. -/
  | bindings (use : Subst.Use)

/-- Whether a command turns tracing on. -/
def Command.isTraceOn : Command → Bool
  | traceOn => true
  | _ => false

theorem Command.isTraceOn_iff {c : Command} : c.isTraceOn = true ↔ c = .traceOn := by
  cases c <;> simp [isTraceOn]

namespace Unifier

/-- Carries out one command. -/
def perform (u : Unifier) : Command → Reply × Unifier
  | .traceOn => (.nothing, u.enableTracing)
  | .ask r => (.outcome (u.answer r).1, (u.answer r).2)
  | .instantiate r => (.ref (u.instantiate r), u)
  | .bindings use => ((u.subst.use use).1, { u with subst := (u.subst.use use).2 })

/-- Carries out commands one after the other. -/
def after (u : Unifier) (commands : List Command) : Unifier :=
  commands.foldl (fun u c => (u.perform c).2) u

/-- What there is to see from outside: each command with its reply and the
bindings that it leaves. -/
def history (u : Unifier) : List Command → List (Command × Reply × Subst)
  | [] => []
  | c :: commands =>
    (c, (u.perform c).1, (u.perform c).2.subst) :: (u.perform c).2.history commands

/-- Commands may be given in two parts. -/
theorem after_append (u : Unifier) (earlier later : List Command) :
    u.after (earlier ++ later) = (u.after earlier).after later :=
  List.foldl_append

@[simp] theorem after_cons (u : Unifier) (c : Command) (commands : List Command) :
    u.after (c :: commands) = (u.perform c).2.after commands := rfl

/-- A run leaves the limits alone. -/
theorem take_limits (u : Unifier) (run : Run) : (u.take run).2.limits = u.limits := by
  simp only [take]
  split <;> rfl

/-- A run neither starts nor stops the recording. -/
theorem take_tracing (u : Unifier) (run : Run) : (u.take run).2.tracing = u.tracing := by
  simp only [take]
  split <;> rfl

/-! ## recording does not interfere -/

/-- Two unifiers that differ at most in what they record. -/
structure Alike (u v : Unifier) : Prop where
  limits : u.limits = v.limits
  subst : u.subst = v.subst

/-- A command gets the same reply from both, and leaves them alike. -/
theorem Alike.perform {u v : Unifier} (h : Alike u v) (c : Command) :
    (u.perform c).1 = (v.perform c).1 ∧ Alike (u.perform c).2 (v.perform c).2 := by
  obtain ⟨hlimits, hsubst⟩ := h
  cases c with
  | traceOn => exact ⟨rfl, hlimits, hsubst⟩
  | ask r =>
      simp only [Unifier.perform, answer_eq_take, take_fst, hlimits, hsubst]
      refine ⟨trivial, ?_, ?_⟩
      · rw [take_limits, take_limits, hlimits]
      · rw [take_subst, take_subst, hsubst]
  | instantiate r =>
      refine ⟨?_, hlimits, hsubst⟩
      simp only [Unifier.perform, Unifier.instantiate, hsubst]
  | bindings use =>
      simp only [Unifier.perform, hsubst]
      exact ⟨trivial, hlimits, rfl⟩

/-- Left out of a history, commands to record are as good as never given. -/
theorem history_filter {u v : Unifier} (h : Alike u v) (commands : List Command) :
    (u.history commands).filter (fun entry => !entry.1.isTraceOn) =
      v.history (commands.filter fun c => !c.isTraceOn) := by
  induction commands generalizing u v with
  | nil => rfl
  | cons c commands ih =>
      obtain ⟨hreply, halike⟩ := h.perform c
      cases hc : c.isTraceOn with
      | true =>
          rw [Command.isTraceOn_iff] at hc
          subst hc
          have htraced : Alike (u.perform .traceOn).2 v := ⟨h.limits, h.subst⟩
          exact ih htraced
      | false =>
          rw [history, List.filter_cons_of_pos (by simp [hc]),
            List.filter_cons_of_pos (by simp [hc]), history, ih halike, hreply, halike.subst]

/-! ## what is recorded -/

theorem recorded_nil (u : Unifier) : u.recorded [] = [] := by
  simp [recorded, number]

/-- A command writes steps down behind what is there, or nothing. -/
theorem perform_trace (u : Unifier) (c : Command) :
    ∃ steps, (u.perform c).2.trace = u.trace ++ u.recorded steps := by
  cases c with
  | traceOn => exact ⟨[], by rw [recorded_nil, List.append_nil]; rfl⟩
  | ask r =>
      simp only [perform, answer_eq_take]
      exact ⟨_, take_trace u _⟩
  | instantiate r => exact ⟨[], by rw [recorded_nil, List.append_nil]; rfl⟩
  | bindings use => exact ⟨[], by rw [recorded_nil, List.append_nil]; rfl⟩

/-- A unifier records if it did so before or is told to. -/
theorem perform_tracing (u : Unifier) (c : Command) :
    (u.perform c).2.tracing = true ↔ u.tracing = true ∨ c = .traceOn := by
  cases c with
  | traceOn => simp [perform, enableTracing]
  | ask r => simp [perform, answer_eq_take, take_tracing]
  | instantiate r => simp [perform]
  | bindings use => simp [perform]

/-- Once told to record, a unifier goes on doing so. -/
theorem tracing_after (u : Unifier) (commands : List Command) :
    (u.after commands).tracing = true ↔ u.tracing = true ∨ .traceOn ∈ commands := by
  induction commands generalizing u with
  | nil => simp [after]
  | cons c commands ih =>
      rw [after_cons, ih, perform_tracing, List.mem_cons, or_assoc, @eq_comm _ c]

/-- **What is recorded stays as it is**, whatever is done later. -/
theorem trace_prefix_after (u : Unifier) (commands : List Command) :
    u.trace <+: (u.after commands).trace := by
  induction commands generalizing u with
  | nil => exact List.prefix_rfl
  | cons c commands ih =>
      obtain ⟨steps, htrace⟩ := u.perform_trace c
      have hstep : u.trace <+: (u.perform c).2.trace := by
        rw [htrace]
        exact List.prefix_append _ _
      exact hstep.trans (ih (u.perform c).2)

/-- A trace that is numbered from one, and empty as long as tracing is off. -/
structure Logged (u : Unifier) : Prop where
  numbers : u.trace.map TraceEntry.number = List.range' 1 u.trace.length
  silent : u.tracing = false → u.trace = []

/-- A command leaves a trace in good order. -/
theorem Logged.perform {u : Unifier} (h : Logged u) (c : Command) : Logged (u.perform c).2 := by
  obtain ⟨steps, htrace⟩ := u.perform_trace c
  cases htracing : u.tracing with
  | false =>
      have hempty : (u.perform c).2.trace = [] := by
        rw [htrace, h.silent htracing, recorded, htracing]
        rfl
      exact ⟨by rw [hempty]; rfl, fun _ => hempty⟩
  | true =>
      refine ⟨?_, fun hoff => ?_⟩
      · rw [htrace, recorded, if_pos htracing, List.map_append, h.numbers, map_number,
          List.length_append, length_number, Nat.add_comm u.trace.length 1, List.range'_append_1]
      · rw [(u.perform_tracing c).mpr (.inl htracing)] at hoff
        contradiction

/-- Any number of commands leaves a trace in good order. -/
theorem Logged.after {u : Unifier} (h : Logged u) (commands : List Command) :
    Logged (u.after commands) := by
  induction commands generalizing u with
  | nil => exact h
  | cons c commands ih => exact ih (h.perform c)

/-- The records of a call that succeeds, leading from `s` to `s'`: no failure is
among them, and the bindings that they show are those that `s'` has and `s` has
not, each once and in its text. -/
structure ShowsSuccess (records : List TraceEntry) (s s' : Subst) : Prop where
  clean : ∀ e ∈ records, e.action ≠ .failure
  once : ((records.filterMap TraceEntry.binding?).map Prod.fst).Nodup
  bound : ∀ v text, (v, text) ∈ records.filterMap TraceEntry.binding? ↔
    NameMap.find? s v = none ∧ ∃ t, NameMap.find? s' v = some t ∧ t.render = text

/-- The records of a call that fails: the failure is the last of them and the only
one, and its note is about the error that the call returns. -/
def ShowsFailure (records : List TraceEntry) (error : UnifyError) : Prop :=
  ∃ earlier last, records = earlier ++ [last] ∧ (∀ e ∈ earlier, e.action ≠ .failure) ∧
    last.action = .failure ∧ last.note = error.note

/-- Steps without a failure, written down, show the success that they gained. -/
theorem showsSuccess_number {steps : List Step} {s s' : Subst} (count : Nat)
    (hsteps : ∀ step ∈ steps, step.action ≠ .failure)
    (hgained : Subst.Gained (steps.filterMap Step.binding?) s s') :
    ShowsSuccess (number count steps) s s' where
  clean := action_ne_of_mem_number hsteps
  once := by
    rw [filterMap_binding?_number, List.map_map]
    exact hgained.nodup
  bound v text := by
    have hmem : (v, text) ∈ (steps.filterMap Step.binding?).map bindingTexts ↔
        ∃ t, (v, t) ∈ steps.filterMap Step.binding? ∧ t.render = text := by
      simp only [List.mem_map, Prod.exists, bindingTexts, Prod.mk.injEq]
      exact ⟨fun ⟨_, t, ht, hv, htext⟩ => ⟨t, hv ▸ ht, htext⟩,
        fun ⟨t, ht, htext⟩ => ⟨v, t, ht, rfl, htext⟩⟩
    rw [filterMap_binding?_number, hmem]
    simp only [hgained.mem_iff, and_assoc, exists_and_left]

/-- Steps that end in their only failure, written down, show it at the end. -/
theorem showsFailure_number {steps : List Step} (count : Nat) (want got : Ty) (error : UnifyError)
    (hsteps : ∀ step ∈ steps, step.action ≠ .failure) :
    ShowsFailure (number count (steps ++ [.failure want got error])) error :=
  ⟨number count steps, _, number_append _ _ _, action_ne_of_mem_number hsteps, rfl, rfl⟩

/-- What a request adds to the trace of a unifier that records. -/
theorem answer_recorded {u : Unifier} (htracing : u.tracing = true) (r : Request) :
    ∃ new, (u.answer r).2.trace = u.trace ++ new ∧
      ((u.answer r).1 = .ok () → ShowsSuccess new u.subst (u.answer r).2.subst) ∧
      ∀ e, (u.answer r).1 = .error e → ShowsFailure new e := by
  refine ⟨number u.trace.length (r.run u.limits u.subst).steps, ?_⟩
  rw [answer_eq_take, take_trace, take_fst, take_subst, recorded, if_pos htracing]
  have hrun := r.faithful_run u.limits u.subst
  generalize r.run u.limits u.subst = run at hrun ⊢
  cases hrun with
  | granted hsteps hgained =>
      exact ⟨rfl, fun _ => showsSuccess_number _ hsteps hgained, fun e he => by contradiction⟩
  | refused want got error hsteps =>
      refine ⟨rfl, fun hok => by contradiction, fun e he => ?_⟩
      cases he
      exact showsFailure_number _ want got error hsteps

/-- **The trace is faithful and changes nothing.**  Let a unifier that does not
record yet, with any limits and bindings, carry out any commands.

* Commands to record aside, it gives the replies and reaches the bindings that it
  does without them, command by command.
* What is recorded stays as it is, is numbered from one without gaps, and is
  nothing before the first command to record.
* Once it records, a request that is granted adds no failure, and the bindings it
  adds to the trace are the ones it has made; one that fails adds a failure at the
  end and nowhere else. -/
theorem trace_faithful (limits : Limits) (s : Subst) (commands : List Command) :
    let start : Unifier := { limits, subst := s }
    let u := start.after commands
    (start.history commands).filter (fun entry => !entry.1.isTraceOn) =
        start.history (commands.filter fun c => !c.isTraceOn) ∧
      ((∀ later, u.trace <+: (start.after (commands ++ later)).trace) ∧
        u.trace.map TraceEntry.number = List.range' 1 u.trace.length ∧
        (.traceOn ∉ commands → u.trace = [])) ∧
      (.traceOn ∈ commands → ∀ r : Request, ∃ new,
        (u.answer r).2.trace = u.trace ++ new ∧
          ((u.answer r).1 = .ok () → ShowsSuccess new u.subst (u.answer r).2.subst) ∧
          ∀ e, (u.answer r).1 = .error e → ShowsFailure new e) := by
  intro start u
  have hlogged : Logged u := Logged.after ⟨rfl, fun _ => rfl⟩ commands
  have htracing : u.tracing = true ↔ .traceOn ∈ commands := by
    rw [tracing_after]
    exact or_iff_right (by simp [start])
  refine ⟨history_filter ⟨rfl, rfl⟩ commands, ⟨fun later => ?_, hlogged.numbers, fun hoff => ?_⟩,
    fun hon => answer_recorded (htracing.mpr hon)⟩
  · rw [after_append]
    exact trace_prefix_after u later
  · exact hlogged.silent (Bool.eq_false_iff.mpr fun hon => hoff (htracing.mp hon))

/-- A unifier that is told to record, after a variable was bound past it, takes three
steps for a pair whose heads differ in case: it looks into the pair and binds two
variables.  A second pair, which would need another type for `U`, fails with that
conflict as its last record.  Without the command nothing is recorded. -/
theorem trace_faithful_pair :
    let pair : Request := .types (.generic "Pair" [.named "T", .named "U"])
      (.generic "PAIR" [.scalar .int, .named "any"])
    let clash : Request := .types (.generic "Pair" [.named "V", .named "U"])
      (.generic "Pair" [.named "V", .scalar .string])
    let start : Unifier := { limits := ⟨3⟩ }
    let u := start.after [.bindings (.bind "Z" (.scalar .int)), .traceOn]
    let u' := start.after [.bindings (.bind "Z" (.scalar .int)), .traceOn, .ask pair]
    (∃ new, (u.answer pair).2.trace = u.trace ++ new ∧
        ShowsSuccess new u.subst (u.answer pair).2.subst) ∧
      (∃ new, (u'.answer clash).2.trace = u'.trace ++ new ∧
        ShowsFailure new (.conflict "U" (.named "any") (.scalar .string))) ∧
      u'.trace.length = 3 ∧ (start.after [.ask pair]).trace = [] := by
  intro pair clash start u u'
  obtain ⟨-, -, hon⟩ := trace_faithful ⟨3⟩ [] [.bindings (.bind "Z" (.scalar .int)), .traceOn]
  obtain ⟨-, -, hon'⟩ :=
    trace_faithful ⟨3⟩ [] [.bindings (.bind "Z" (.scalar .int)), .traceOn, .ask pair]
  obtain ⟨-, ⟨-, -, hoff⟩, -⟩ := trace_faithful ⟨3⟩ [] [.ask pair]
  obtain ⟨new, htrace, hgranted, -⟩ := hon (by simp) pair
  obtain ⟨new', htrace', -, hfailed⟩ := hon' (by simp) clash
  exact ⟨⟨new, htrace, hgranted rfl⟩, ⟨new', htrace', hfailed _ rfl⟩, rfl, hoff (by simp)⟩

end Unifier

end TypeFlow
