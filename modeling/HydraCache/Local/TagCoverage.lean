import HydraCache.Local.Versions

/-!
# Live entries are listed under their tags

An invalidation by tag removes the keys the index lists under the tag, so an entry that is in the
store and not in the index cannot be invalidated by its tags. `TagsCovered` says that this does not
happen once the cache has settled, that is, when no call is in flight and the cleanup queue has been
drained: every live entry is listed under each of its tags, and an `invalidate_tag` run from there
removes it.

A writer inserts, registers and drains in three steps, and the property fails when two writers of
one key cross: the older one registers last, its version displaces the newer one in the index, and
the cleanup of the older entry, whose version is the one now listed, drops the listing of the live
entry (`tagsCovered_lost_by_crossing_puts`). A flush that clears the index after a put has
registered, and without an observer the unguarded removal from the index, lose listings in the same
way.

`KeepsListings` is the condition under which this cannot happen: a step that displaces a listing of
a live entry does so only while that entry is still to be registered, removed or replaced.
`tagsCovered_of_keepsListings` proves `TagsCovered` in every state of every run in which each step
meets it.
-/

set_option autoImplicit false

namespace HydraCache.Local

open Lib List

/-! ### The property -/

namespace State

/-- No call is in flight, and the cleanup queue is drained with no ticket lost. -/
def Settled (s : State) : Prop :=
  (∀ tid, (s.tasks tid).code = []) ∧
    ∀ observer, s.shared.observer = some observer → observer.queue = [] ∧ observer.dirty = false

/-- The labels of an invalidation of `tag` that runs alone. -/
def invalidateTagLabels (s : State) (tag : Tag) (choices : List Choice) : List Label :=
  .start (.invalidateTag tag) :: choices.map (.step s.spawned)

/-- An invalidation of `tag` that runs alone from here returns, and whenever it has returned the
store does not hold `key`. -/
def RemovedByTag (config : CacheConfig) (s : State) (tag : Tag) (key : Key) : Prop :=
  (∃ choices s', run (step config) s (s.invalidateTagLabels tag choices) = some s' ∧
      (s'.tasks s.spawned).code = []) ∧
    ∀ choices s', run (step config) s (s.invalidateTagLabels tag choices) = some s' →
      (s'.tasks s.spawned).code = [] → s'.shared.store key = none

/-- Once the cache has settled, every live entry is listed under its tags and removed by them. -/
def TagsCovered (config : CacheConfig) (s : State) : Prop :=
  s.Settled → ∀ key entry tag, s.shared.store key = some entry → tag ∈ entry.tags →
    (s.shared.index.listing tag key).isSome ∧ s.RemovedByTag config tag key

end State

open State

/-! ### When listings are kept -/

/-- The instruction registers this version of `key` under `tag`. -/
def Instr.Registers (key : Key) (version : ℕ) (tag : Tag) (instr : Instr) : Prop :=
  ∃ tags, instr = .register key tags version ∧ tag ∈ tags

/-- The instruction displaces the listing of `entry` under `tag`: it lists another version over it,
drops it without regard to the version, or drops all. -/
def Instr.Displaces (observed : Bool) (key : Key) (entry : CacheEntry) (tag : Tag) : Instr → Prop
  | register name tags version => observed = true ∧ name = key ∧ tag ∈ tags ∧
    version ≠ entry.version
  | unregister name tags => name = key ∧ tag ∈ tags
  | clearIndex => True
  | _ => False

namespace State

/-- Some task is still to register the entry under `tag`, or to remove or replace it. -/
def Awaited (s : State) (key : Key) (entry : CacheEntry) (tag : Tag) : Prop :=
  ∃ tid, (∃ instr ∈ (s.tasks tid).code, instr.Registers key entry.version tag) ∨
    s.Removes tid key ∨ ∃ replacement, s.Pending tid key replacement

/-- The entry is listed under `tag`. With an observer the version listed has to be its own: the
cleanup of an older version would drop any other listing. -/
def Listed (s : State) (key : Key) (entry : CacheEntry) (tag : Tag) : Prop :=
  if s.shared.observed then s.shared.index.listing tag key = some entry.version
  else (s.shared.index.listing tag key).isSome

end State

/-- A step that displaces the listing of a live entry does so while the entry is still to be
registered, removed or replaced. -/
def KeepsListings (s : State) : Label → Prop
  | .step tid _ => ∀ instr, (s.tasks tid).code.head? = some instr →
      ∀ key entry tag, s.shared.store key = some entry → tag ∈ entry.tags →
        instr.Displaces s.shared.observed key entry tag → s.Awaited key entry tag
  | _ => True

/-! ### The invariant -/

/-- Every live entry is listed under each of its tags, or still awaited there. -/
def Covered (s : State) : Prop :=
  ∀ key entry tag, s.shared.store key = some entry → tag ∈ entry.tags →
    s.Listed key entry tag ∨ s.Awaited key entry tag

variable {s : State} {key : Key} {entry : CacheEntry} {tag : Tag} {instr : Instr} {s' : State}

theorem State.Listed.isSome (h : s.Listed key entry tag) :
    (s.shared.index.listing tag key).isSome := by
  unfold Listed at h
  split_ifs at h
  · rw [h]
    rfl
  · exact h

/-- An entry listed with its own version is listed, with or without an observer. -/
theorem State.listed_of_listing
    (h : s.shared.index.listing tag key = some entry.version) : s.Listed key entry tag := by
  unfold Listed
  split_ifs
  · exact h
  · rw [h]
    rfl

theorem State.Listed.congr
    (h : s.Listed key entry tag) (hobs : s'.shared.observed = s.shared.observed)
    (hlist : s'.shared.index.listing tag key = s.shared.index.listing tag key) :
    s'.Listed key entry tag := by
  unfold Listed at h ⊢
  rwa [hobs, hlist]

section Advance

variable {config : CacheConfig} {s : State} {tid : ℕ} {choice : Choice}
  {rest : List Instr} {outcome : Outcome} {key : Key} {entry : CacheEntry} {tag : Tag}

theorem mem_code_advance_of_next {next : Instr} (hnext : next ∈ outcome.next) :
    next ∈ ((s.advance tid rest outcome).tasks tid).code := by
  rw [tasks_advance_self]
  exact mem_append_left _ hnext

variable (hcode : (s.tasks tid).code = instr :: rest)
  (hexec : exec config tid choice s.shared instr = some outcome)
include hcode hexec

/-- An entry about to be inserted stays so until it is. -/
theorem pending_advance {other : ℕ} (h : s.Pending other key entry) :
    (s.advance tid rest outcome).Pending other key entry ∨ instr = .insert key entry := by
  obtain ⟨ahead, hahead, hpend⟩ := h
  by_cases hself : other = tid ∧ ahead = instr
  · obtain ⟨rfl, rfl⟩ := hself
    cases ahead with
    | replaceLookup =>
      cases hpend
      left
      simp only [exec] at hexec
      split at hexec <;> cases hexec
      · exact ⟨_, mem_code_advance_of_next (mem_singleton_self _), rfl⟩
      · exact ⟨_, mem_code_advance_of_next (mem_singleton_self _), rfl⟩
    | replaceUnregister =>
      cases hpend
      cases hexec
      exact .inl ⟨_, mem_code_advance_of_next (mem_singleton_self _), rfl⟩
    | insert =>
      cases hpend
      exact .inr rfl
    | _ => cases hpend
  · refine .inl ⟨ahead, ?_, hpend⟩
    by_cases hother : other = tid
    · exact mem_code_advance_of_ne hcode (fun h ↦ hself ⟨hother, h⟩) hahead
    · rwa [tasks_advance_of_ne s hother]

/-- Assumes: the entry is live after the instruction. What was awaited for it still is, unless this
instruction was its registration. -/
theorem awaited_advance (hafter : outcome.shared.store key = some entry) (htag : tag ∈ entry.tags)
    (h : s.Awaited key entry tag) :
    (s.advance tid rest outcome).Awaited key entry tag ∨ instr.Registers key entry.version tag := by
  obtain ⟨other, ⟨ahead, hahead, hreg⟩ | hrem | ⟨replacement, hpend⟩⟩ := h
  · by_cases hself : ahead = instr
    · exact .inr (hself ▸ hreg)
    · exact .inl ⟨other, .inl ⟨ahead, mem_code_advance_of_ne hcode hself hahead, hreg⟩⟩
  · refine .inl ⟨other, .inr (.inl (hrem.advance hcode hexec ?_))⟩
    exact Option.ne_none_iff_exists'.mpr ⟨entry, hafter⟩
  · left
    rcases pending_advance hcode hexec hpend with hpend | rfl
    · exact ⟨other, .inr (.inr ⟨replacement, hpend⟩)⟩
    · -- the entry is live after this insertion, so it is the one inserted, and comes to be listed
      cases hexec
      simp only [Function.update_self, Option.some.injEq] at hafter
      subst hafter
      exact ⟨tid, .inl ⟨_, mem_code_advance_of_next mem_cons_self, _, rfl, htag⟩⟩

/-- Assumes: the entry is live before and after the instruction and listed before it. Then it is
listed after it, awaited after it, or its listing was displaced. -/
theorem listed_advance (hwf : WellFormed s)
    (hpre : s.shared.store key = some entry) (h : s.Listed key entry tag) :
    (s.advance tid rest outcome).Listed key entry tag ∨
      (s.advance tid rest outcome).Awaited key entry tag ∨
      instr.Displaces s.shared.observed key entry tag := by
  have hsame (hlist : outcome.shared.index.listing tag key = s.shared.index.listing tag key) :
      (s.advance tid rest outcome).Listed key entry tag :=
    h.congr (exec_observed hexec) hlist
  cases exec_indexEffect hexec with
  | keeps _ hindex => exact .inl (hsame (by rw [hindex]))
  | registers name tags version hindex =>
    by_cases hdisp : key = name ∧ tag ∈ tags
    · have hlist : outcome.shared.index.listing tag key = some version := by
        rw [hindex, TagIndex.listing_register, if_pos hdisp]
      cases hobs : s.shared.observed with
      | true =>
        by_cases hver : version = entry.version
        · exact .inl (listed_of_listing (hver ▸ hlist))
        · exact .inr (.inr ⟨rfl, hdisp.1.symm, hdisp.2, hver⟩)
      | false =>
        have hunobserved : (s.advance tid rest outcome).shared.observed = false :=
          (exec_observed hexec).trans hobs
        left
        rw [Listed, if_neg (by rw [hunobserved]; exact Bool.false_ne_true)]
        exact Option.isSome_of_eq_some hlist
    · exact .inl (hsame (by rw [hindex, TagIndex.listing_register, if_neg hdisp]))
  | unregisters name tags hindex =>
    by_cases hdisp : key = name ∧ tag ∈ tags
    · exact .inr (.inr ⟨hdisp.1.symm, hdisp.2⟩)
    · exact .inl (hsame (by rw [hindex, TagIndex.listing_unregister, if_neg hdisp]))
  | replaces name tags replacement hindex hnext =>
    by_cases hdisp : key = name ∧ tag ∈ tags
    · obtain ⟨rfl, _⟩ := hdisp
      refine .inr (.inl ⟨tid, .inr (.inr ⟨replacement, .insert key replacement,
        mem_code_advance_of_next ?_, rfl⟩)⟩)
      rw [hnext]
      exact mem_singleton_self _
    · exact .inl (hsame (by rw [hindex, TagIndex.listing_unregister, if_neg hdisp]))
  | cleans ticket hobs hindex =>
    -- the ticket's version is not in the store, so it is not the one that is listed
    have hver : entry.version ≠ ticket.version :=
      hwf.tickets.dead ticket (.inr ⟨tid, mem_code_of_eq_cons hcode⟩) key entry hpre
    have hlist : s.shared.index.listing tag key = some entry.version := by
      unfold Listed at h
      rwa [if_pos hobs] at h
    refine .inl (hsame ?_)
    rw [hindex, TagIndex.listing_unregisterIfVersion, if_neg]
    rintro ⟨_, _, htick⟩
    rw [hlist, Option.some.injEq] at htick
    exact hver htick
  | advances _ hindex => exact .inl (hsame (by rw [hindex, TagIndex.listing_advanceKey]))
  | takes name keys hindex hperm hnext =>
    by_cases htaken : tag = name
    · subst htaken
      have hmem : key ∈ keys := hperm.mem_iff.mpr (TagIndex.mem_takeTag.mpr h.isSome)
      refine .inr (.inl ⟨tid, .inr (.inl (.inl (mem_code_advance_of_next ?_)))⟩)
      rw [hnext]
      exact mem_map_of_mem hmem
    · exact .inl (hsame (by rw [hindex, TagIndex.listing_takeTag, if_neg htaken]))
  | clears => exact .inr (.inr trivial)

/-- Assumes: the instruction meets `KeepsListings`. Live entries stay covered. -/
theorem Covered.advance (hwf : WellFormed s) (h : Covered s)
    (hkeeps : KeepsListings s (.step tid choice)) : Covered (s.advance tid rest outcome) := by
  intro key entry tag hafter htag
  -- an entry that was live before
  have hold (hpre : s.shared.store key = some entry) :
      (s.advance tid rest outcome).Listed key entry tag ∨
        (s.advance tid rest outcome).Awaited key entry tag := by
    have hawaited (hawaited : s.Awaited key entry tag) (hreg : ¬ instr.Registers ..) :
        (s.advance ..).Awaited key entry tag :=
      (awaited_advance hcode hexec hafter htag hawaited).resolve_right hreg
    by_cases hreg : instr.Registers key entry.version tag
    · obtain ⟨tags, rfl, hmem⟩ := hreg
      cases hexec
      refine .inl (listed_of_listing ?_)
      exact (TagIndex.listing_register ..).trans (if_pos ⟨rfl, hmem⟩)
    · rcases h key entry tag hpre htag with hlist | hawait
      · rcases listed_advance hcode hexec hwf hpre hlist with hlist | hawait | hdisp
        · exact .inl hlist
        · exact .inr hawait
        · exact .inr (hawaited (hkeeps instr (by rw [hcode, List.head?_cons]) key entry tag
            hpre htag hdisp) hreg)
      · exact .inr (hawaited hawait hreg)
  rcases (exec_storeEffect hexec).store_eq_some hafter with hpre | ⟨rfl, _⟩
  · exact hold hpre
  · cases hexec
    exact .inr ⟨tid, .inl ⟨_, mem_code_advance_of_next mem_cons_self, _, rfl, htag⟩⟩

end Advance

theorem Covered.start (hwf : WellFormed s) (h : Covered s) (op : Op) : Covered (s.start op) := by
  intro key entry tag hstore htag
  rcases h key entry tag hstore htag with hlist | ⟨tid, hawait⟩
  · exact .inl (hlist.congr rfl rfl)
  · right
    have hstart : tid ≠ s.spawned := by
      rintro rfl
      simp [Removes, Pending, hwf.tasks.idle s.spawned (le_refl _)] at hawait
    have hsame : (s.start op).tasks tid = s.tasks tid := by
      rw [tasks_start, if_neg hstart]
    refine ⟨tid, ?_⟩
    unfold Removes Pending at hawait ⊢
    rwa [hsame]

theorem Covered.of_environment (h : Covered s) (hmove : EnvironmentMove s s') : Covered s' := by
  intro key entry tag hlive htag
  rcases h key entry tag (hmove.store key entry hlive) htag with hlist | hawait
  · exact .inl (hlist.congr hmove.observed (by rw [hmove.index]))
  · right
    unfold Awaited Removes Pending at hawait ⊢
    rwa [hmove.tasks]

structure CoverageInvariant (s : State) : Prop where
  wellFormed : WellFormed s
  covered : Covered s

theorem coverageInvariant_of_step (config : CacheConfig) (s : State) (label : Label) (s' : State)
    (hkeeps : KeepsListings s label) (h : CoverageInvariant s)
    (hstep : step config s label = some s') : CoverageInvariant s' :=
  step_preserves_of_wellFormed (fun _ h ↦ h.wellFormed)
    (fun _ op h ↦ ⟨h.wellFormed.start op, h.covered.start h.wellFormed op⟩)
    (fun _ _ _ _ _ _ hkeeps h hcode hexec ↦
      ⟨h.wellFormed.advance hcode hexec, h.covered.advance hcode hexec h.wellFormed hkeeps⟩)
    (fun _ _ h hwf hmove ↦ ⟨hwf, h.covered.of_environment hmove⟩) s label s' hkeeps h hstep

theorem coverageInvariant_initial (observed : Bool) : CoverageInvariant (initial observed) where
  wellFormed := wellFormed_initial ..
  covered := by
    intro key entry tag hstore
    cases hstore

/-! ### An invalidation by tag that runs alone -/

/-- The instructions of a removal, which never wait. -/
def Instr.removing : Instr → Bool
  | removeLookup _ | invalidate _ | unregister .. | drain | drainNext => true
  | _ => false

/-- A bound on the steps a removal takes from here, while no ticket is queued. -/
def Instr.weight : Instr → ℕ
  | removeLookup _ => 4
  | drain => 2
  | _ => 1

/-- Assumes: no queued ticket. An instruction of a removal runs, whatever the choice, and continues
with instructions of the removal that weigh less. -/
theorem exec_removing (config : CacheConfig) (tid : ℕ) (choice : Choice) {shared : Shared}
    (hinstr : instr.removing = true) (hticks : shared.tickets = []) :
    ∃ outcome, exec config tid choice shared instr = some outcome ∧ outcome.spawned = none ∧
      outcome.shared.tickets = [] ∧ (∀ next ∈ outcome.next, next.removing = true) ∧
      (outcome.next.map Instr.weight).sum < instr.weight := by
  have hruns : ∃ outcome, exec config tid choice shared instr = some outcome := by
    cases instr with
    | invalidate | unregister => exact ⟨_, rfl⟩
    | removeLookup | drain | drainNext =>
      simp only [exec]
      (repeat' split) <;> exact ⟨_, rfl⟩
    | _ => cases hinstr
  obtain ⟨outcome, hexec⟩ := hruns
  have hempty : outcome.shared.tickets = [] := by
    refine eq_nil_iff_forall_not_mem.mpr fun ticket hmem ↦ ?_
    simpa [hticks] using mem_tickets_of_exec hexec hmem
  refine ⟨outcome, hexec, ?_⟩
  cases executes_of_exec hexec with
  | idles => exact ⟨rfl, hempty, by simp, by cases instr <;> simp [Instr.weight]⟩
  | removes | unregisters | releases => exact ⟨rfl, hempty, by simp, by simp [Instr.weight]⟩
  | claims => exact ⟨rfl, hempty, by simp [Instr.removing], by simp [Instr.weight]⟩
  | removesFound =>
    refine ⟨rfl, hempty, ?_, ?_⟩
    · cases shared.observed <;> simp [removeEntry, Instr.removing]
    · cases shared.observed <;> simp [removeEntry, Instr.weight]
  | dequeues hobs hqueue =>
    rw [Shared.tickets, hobs] at hticks
    cases hqueue.symm.trans hticks
  | _ => cases hinstr

/-- Assumes: no queued ticket, and a removal ahead of `suffix` in the code of a task. The task alone
comes to where only `suffix` is left. -/
theorem removing_returns (config : CacheConfig) (tid : ℕ) (suffix : List Instr) :
    ∀ (weight : ℕ) (removal : List Instr) (s : State),
      (removal.map Instr.weight).sum = weight → (∀ instr ∈ removal, instr.removing = true) →
      s.shared.tickets = [] → (s.tasks tid).code = removal ++ suffix →
      ∃ (choices : List Choice) (s' : State), run (step config) s (choices.map (.step tid)) =
        some s' ∧ (s'.tasks tid).code = suffix ∧ s'.shared.tickets = [] := by
  intro weight
  induction weight using Nat.strong_induction_on with
  | _ weight ih =>
    intro removal s hweight hrem hticks hcode
    cases removal with
    | nil => exact ⟨[], s, rfl, hcode, hticks⟩
    | cons instr rest =>
      obtain ⟨outcome, hexec, hspawn, htickets', hnext, _⟩ :=
        exec_removing config tid .proceed (hrem instr mem_cons_self) hticks
      have hstep : step config s (.step tid .proceed) =
          some (s.advance tid (rest ++ suffix) outcome) :=
        (step_task_eq_some hcode).mpr ⟨outcome, hexec, by rw [hspawn]; rfl⟩
      have hall : ∀ next ∈ outcome.next ++ rest, next.removing = true := by
        exact forall_mem_append.mpr ⟨hnext, (forall_mem_cons.mp hrem).2⟩
      have hsum : ((outcome.next ++ rest).map Instr.weight).sum < weight := by
        rw [← hweight, map_append, sum_append, map_cons, sum_cons]
        omega
      have hcode' : ((s.advance tid (rest ++ suffix) outcome).tasks tid).code =
          (outcome.next ++ rest) ++ suffix := by
        rw [tasks_advance_self, append_assoc]
      obtain ⟨choices, s', hrun, hdone, hempty⟩ :=
        ih _ hsum (outcome.next ++ rest) _ rfl hall htickets' hcode'
      exact ⟨.proceed :: choices, s', run_cons_eq_some.mpr ⟨_, hstep, hrun⟩, hdone, hempty⟩

/-- Task `tid` does nothing but remove entries, and `key` is removed or still to be. -/
structure Removing (tid : ℕ) (key : Key) (s : State) : Prop where
  removing : ∀ instr ∈ (s.tasks tid).code, instr.removing = true
  tickets : s.shared.tickets = []
  removed : s.shared.store key = none ∨ s.Removes tid key

/-- Task `tid` is about to take `tag`, under which `key` is listed. -/
structure Taking (tid : ℕ) (tag : Tag) (key : Key) (s : State) : Prop where
  code : (s.tasks tid).code = [.drain, .takeTag tag] ∨
    (s.tasks tid).code = [.drainNext, .takeTag tag] ∨ (s.tasks tid).code = [.takeTag tag]
  tickets : s.shared.tickets = []
  listed : (s.shared.index.listing tag key).isSome

section Alone

variable {config : CacheConfig} {tid : ℕ} {tag : Tag} {key : Key} {s : State} {choice : Choice}

theorem Removing.step (h : Removing tid key s)
    (hstep : step config s (.step tid choice) = some s') : Removing tid key s' := by
  cases hcode : (s.tasks tid).code with
  | nil =>
    simp only [HydraCache.Local.step, hcode] at hstep
    cases hstep
  | cons instr =>
    have hinstr : instr.removing = true := h.removing instr (mem_code_of_eq_cons hcode)
    obtain ⟨outcome, hexec, hspawn, hticks, hnext, _⟩ :=
      exec_removing config tid choice hinstr h.tickets
    obtain ⟨_, hsame, rfl⟩ := (step_task_eq_some hcode).mp hstep
    cases hexec.symm.trans hsame
    rw [hspawn]
    refine ⟨?_, hticks, ?_⟩
    · intro next hmem
      rcases mem_code_advance hcode hmem with hmem | ⟨_, hmem⟩
      · exact h.removing next hmem
      · exact hnext next hmem
    · by_cases hafter : outcome.shared.store key = none
      · exact .inl hafter
      · rcases h.removed with hnone | hrem
        · -- a removal inserts nothing
          obtain ⟨entry, hentry⟩ := Option.ne_none_iff_exists'.mp hafter
          rcases (exec_storeEffect hexec).store_eq_some hentry with hpre | ⟨rfl, _⟩
          · cases hnone.symm.trans hpre
          · cases hinstr
        · exact .inr (hrem.advance hcode hexec hafter)

theorem Taking.step (h : Taking tid tag key s)
    (hstep : step config s (.step tid choice) = some s') :
    Taking tid tag key s' ∨ Removing tid key s' := by
  have hdrain {instr : Instr} (hcode : (s.tasks tid).code = [instr, .takeTag tag])
      (hinstr : instr.removing = true)
      (hnext : ∀ outcome, Executes config tid s.shared instr outcome →
        (outcome.next = [] ∨ outcome.next = [.drainNext]) ∧ outcome.shared.index = s.shared.index) :
      Taking tid tag key s' := by
    obtain ⟨outcome, hexec, hspawn, hticks, _⟩ :=
      exec_removing config tid choice hinstr h.tickets
    obtain ⟨_, hsame, rfl⟩ := (step_task_eq_some hcode).mp hstep
    cases hexec.symm.trans hsame
    rw [hspawn]
    obtain ⟨hnext, hindex⟩ := hnext outcome (executes_of_exec hexec)
    refine ⟨?_, hticks, ?_⟩
    · rw [startSpawned, tasks_advance_self]
      rcases hnext with hnext | hnext <;> simp [hnext]
    · change (outcome.shared.index.listing tag key).isSome
      rw [hindex]
      exact h.listed
  rcases h.code with hcode | hcode | hcode
  · refine .inl (hdrain hcode rfl fun outcome hexec ↦ ?_)
    cases hexec with
    | idles => exact ⟨.inl rfl, rfl⟩
    | claims => exact ⟨.inr rfl, rfl⟩
  · refine .inl (hdrain hcode rfl fun outcome hexec ↦ ?_)
    cases hexec with
    | idles | releases => exact ⟨.inl rfl, rfl⟩
    | dequeues hobs hqueue =>
      have hticks := h.tickets
      rw [Shared.tickets, hobs] at hticks
      cases hqueue.symm.trans hticks
  · right
    obtain ⟨outcome, hexec, rfl⟩ := (step_task_eq_some hcode).mp hstep
    simp only [exec] at hexec
    split at hexec
    · rename_i keys
      split_ifs at hexec with hperm
      cases hexec
      have hmem : key ∈ keys := hperm.mem_iff.mpr (TagIndex.mem_takeTag.mpr h.listed)
      refine ⟨?_, h.tickets, .inr (.inl ?_)⟩
      · intro instr hinstr
        rw [startSpawned, tasks_advance_self, append_nil] at hinstr
        obtain ⟨name, _, rfl⟩ := mem_map.mp hinstr
        rfl
      · rw [startSpawned, tasks_advance_self, append_nil]
        exact mem_map_of_mem hmem
    · cases hexec

/-- Assumes: an invalidation about to take the tag, or removing what it took. Whatever it does on
its own, when it has returned the store does not hold the key. -/
theorem store_eq_none_of_alone (h : Taking tid tag key s ∨ Removing tid key s)
    (choices : List Choice) (hrun : run (step config) s (choices.map (.step tid)) = some s')
    (hdone : (s'.tasks tid).code = []) : s'.shared.store key = none := by
  induction choices generalizing s with
  | nil =>
    cases hrun
    rcases h with h | h
    · rcases h.code with hcode | hcode | hcode <;> rw [hdone] at hcode <;> cases hcode
    · rcases h.removed with hnone | hrem
      · exact hnone
      · unfold Removes at hrem
        simp [hdone] at hrem
  | cons _ _ ih =>
    obtain ⟨middle, hstep, hrest⟩ := run_cons_eq_some.mp hrun
    refine ih ?_ hrest
    rcases h with h | h
    · exact h.step hstep
    · exact .inr (h.step hstep)

end Alone

theorem State.Settled.tickets (h : s.Settled) : s.shared.tickets = [] := by
  unfold Shared.tickets
  cases hobs : s.shared.observer with
  | none => rfl
  | some observer => exact (h.2 observer hobs).1

/-- Assumes: a settled cache. An invalidation by tag that runs alone returns. -/
theorem State.Settled.invalidateTag_returns (h : s.Settled) (config : CacheConfig)
    (tag : Tag) : ∃ choices s', run (step config) s (s.invalidateTagLabels tag choices) = some s' ∧
      (s'.tasks s.spawned).code = [] := by
  have hcode : ((s.start (.invalidateTag tag)).tasks s.spawned).code =
      [.drain] ++ [.takeTag tag] := by
    rw [tasks_start, if_pos rfl]
    rfl
  obtain ⟨drains, taking, hdrains, htaking, hticks⟩ :=
    removing_returns config s.spawned [.takeTag tag] _ [.drain] (s.start (.invalidateTag tag)) rfl
      (by simp [Instr.removing]) h.tickets hcode
  let keys := (taking.shared.index.takeTag tag).1
  let outcome : Outcome :=
    { shared := { taking.shared with index := (taking.shared.index.takeTag tag).2 }
      next := keys.map .removeLookup }
  have hexec : exec config s.spawned (.order keys) taking.shared (.takeTag tag) = some outcome :=
    if_pos (List.Perm.refl _)
  have hstep : step config taking (.step s.spawned (.order keys)) =
      some (taking.advance s.spawned [] outcome) :=
    (step_task_eq_some htaking).mpr ⟨outcome, hexec, rfl⟩
  have hrem : ∀ instr ∈ keys.map Instr.removeLookup, instr.removing = true := by
    intro instr hinstr
    obtain ⟨key, _, rfl⟩ := mem_map.mp hinstr
    rfl
  obtain ⟨removals, s', hrems, hdone, _⟩ :=
    removing_returns config s.spawned [] _ (keys.map .removeLookup)
      (taking.advance s.spawned [] outcome) rfl hrem hticks
      (by rw [tasks_advance_self])
  refine ⟨drains ++ .order keys :: removals, s', ?_, hdone⟩
  refine run_cons_eq_some.mpr ⟨_, rfl, ?_⟩
  rw [map_append, map_cons, run_append_eq_some]
  exact ⟨taking, hdrains, run_cons_eq_some.mpr ⟨_, hstep, hrems⟩⟩

/-- Assumes: a settled cache and a listed key. An invalidation by the tag removes the key. -/
theorem State.Settled.removedByTag (h : s.Settled) (config : CacheConfig)
    (hlist : (s.shared.index.listing tag key).isSome) :
    s.RemovedByTag config tag key := by
  refine ⟨h.invalidateTag_returns .., fun choices s' hrun hdone ↦ ?_⟩
  obtain ⟨started, hstart, hrest⟩ := run_cons_eq_some.mp hrun
  cases hstart
  have htaking : Taking s.spawned tag key (s.start (.invalidateTag tag)) := by
    refine ⟨.inl ?_, h.tickets, hlist⟩
    rw [tasks_start, if_pos rfl]
    rfl
  exact store_eq_none_of_alone (.inl htaking) choices hrest hdone

theorem CoverageInvariant.tagsCovered (h : CoverageInvariant s)
    (config : CacheConfig) : s.TagsCovered config := by
  intro hset key entry tag hstore htag
  have hlist : (s.shared.index.listing tag key).isSome := by
    rcases h.covered key entry tag hstore htag with hlist | ⟨tid, hawait⟩
    · exact hlist.isSome
    · simp [Removes, Pending, hset.1] at hawait
  exact ⟨hlist, hset.removedByTag config hlist⟩

/-! ### Runs -/

/-- Assumes: a run from a fresh cache in which every step keeps listings. Once the cache has
settled, every live entry is listed under each of its tags, and an invalidation by that tag removes
it. -/
theorem tagsCovered_of_keepsListings (config : CacheConfig) (observed : Bool)
    (labels : List Label) (s : State) (hrun : run (step config) (.initial observed) labels = some s)
    (hkeeps : Along (step config) KeepsListings (.initial observed) labels) :
    s.TagsCovered config :=
  (run_invariant (coverageInvariant_of_step config) (coverageInvariant_initial observed) hkeeps
    hrun).tagsCovered config

/-- Two puts of one key, one after the other, the second over the first. -/
def replacingPutsLabels : List Label :=
  [.start (.put "user:1" [1] { tags := ["users"] }), .step 0 .proceed, .step 0 .proceed,
    .step 0 .proceed, .step 0 .proceed, .step 0 .proceed,
    .start (.put "user:1" [2] { tags := ["users"] }), .step 1 .proceed, .step 1 .proceed,
    .step 1 .proceed, .step 1 .proceed, .step 1 .proceed]

/-- A step whose next instruction displaces no listing keeps all of them. -/
theorem KeepsListings.of_not_displaces {tid : ℕ} {choice : Choice}
    {rest : List Instr} (hcode : (s.tasks tid).code = instr :: rest)
    (h : ∀ key entry tag, s.shared.store key = some entry →
      ¬ instr.Displaces s.shared.observed key entry tag) : KeepsListings s (.step tid choice) := by
  intro head hhead key entry tag hstore _ hdisp
  rw [hcode, List.head?_cons, Option.some.injEq] at hhead
  exact (h key entry tag hstore (hhead ▸ hdisp)).elim

theorem keepsListings_replacingPutsLabels :
    Along (step sampleConfig) KeepsListings (.initial true) replacingPutsLabels := by
  have hnone {instr : Instr} {shared : Shared} (h : ∀ key entry tag,
      instr.Displaces shared.observed key entry tag = False) : ∀ key entry tag,
      shared.store key = some entry → ¬ instr.Displaces shared.observed key entry tag := by
    intro key entry tag _
    rw [h]
    exact not_false
  -- the two puts, one after the other
  iterate 2
    refine .cons rfl trivial ?_
    iterate 3 refine .cons rfl (.of_not_displaces rfl (hnone fun _ _ _ ↦ rfl)) ?_
    refine .cons rfl (.of_not_displaces rfl ?_) ?_
    · rintro key entry tag hstore ⟨_, rfl, _, hver⟩
      cases hstore
      exact hver rfl
    refine .cons rfl (.of_not_displaces rfl (hnone fun _ _ _ ↦ rfl)) ?_
  trivial

theorem tagsCovered_replacingPutsLabels :
    ∃ s, run (step sampleConfig) (.initial true) replacingPutsLabels = some s ∧
      s.TagsCovered sampleConfig :=
  ⟨_, rfl, tagsCovered_of_keepsListings sampleConfig true replacingPutsLabels _ rfl
    keepsListings_replacingPutsLabels⟩

/-- The writers cross: the first inserts first and registers last, so that the index lists the
version that was replaced, and the cleanup of that version drops the listing. -/
def crossingPutsLabels : List Label :=
  [.start (.put "user:1" [1] { tags := ["users"] }),
    .start (.put "user:1" [2] { tags := ["users"] }),
    .step 0 .proceed, .step 0 .proceed, .step 1 .proceed, .step 1 .proceed,
    .step 0 .proceed, .step 1 .proceed, .step 1 .proceed, .step 0 .proceed,
    .observe "user:1" ⟨[1], ["users"], some 10, 1⟩,
    .step 0 .proceed, .step 0 .proceed, .step 0 .proceed, .step 0 .proceed, .step 0 .proceed,
    .step 1 .proceed]

/-- Both puts have returned and the queue is drained, with no ticket lost; the second entry is live
and listed under no tag. -/
theorem tagsCovered_lost_by_crossing_puts :
    ∃ s, run (step sampleConfig) (.initial true) crossingPutsLabels = some s ∧
      ¬ s.TagsCovered sampleConfig := by
  refine ⟨_, rfl, fun h ↦ ?_⟩
  have hlist := (h ⟨?_, ?_⟩ "user:1" ⟨[2], ["users"], some 10, 2⟩ "users" rfl
    (mem_singleton_self _)).1
  · cases hlist
  · intro tid
    rcases tid with _ | _ | tid <;> rfl
  · intro observer hobs
    cases hobs
    exact ⟨rfl, rfl⟩

end HydraCache.Local
