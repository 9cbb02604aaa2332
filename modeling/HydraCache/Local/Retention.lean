import HydraCache.Local.Effects

/-!
# How long a put stays

With no invalidation, no flush and no eviction, a value that was put should be lost only by being
overwritten or by its own time to live. Readers remove entries too: one that finds an expired entry,
or one it cannot decode, removes the key. `RetainedPut` says that a put which has returned and has
not been overwritten is in the store or expired.

It fails in two ways (`retainedPut_lost_to_readers`). A reader that cannot decode the value removes
it, on purpose. And a reader removes by key, in a step after its lookup, so a reader that found an
older entry removes a newer one inserted in between.

`retainedPut_of_undisturbed` proves it for every value that meets neither: no reader looks it up and
cannot decode it, and at its insertion no reader has still to remove what it found before.
-/

set_option autoImplicit false

namespace HydraCache.Local

open Lib

/-! ### The property -/

/-- Gets, encoded gets, containment checks, loads and puts. -/
def Op.readsOrWrites : Op → Prop
  | read .. | put .. | backgroundRefresh .. => True
  | _ => False

/-- The label is not an invalidation, a flush or an eviction. -/
def ReadsAndWrites (_ : State) : Label → Prop
  | .start op => op.readsOrWrites
  | .evict _ => False
  | _ => True

namespace State

/-- The last insertion under `key`. -/
def lastWrite (s : State) (key : Key) : Option Write :=
  s.shared.writes.find? fun write ↦ write.key = key

/-- If the insertion was made by a put that has returned, and is the last one under its key, then
the store holds it or its time to live has passed. -/
def RetainedPut (s : State) (write : Write) : Prop :=
  ∀ key value options, (s.tasks write.writer).op = some (.put key value options) →
    (s.tasks write.writer).code = [] → s.lastWrite write.key = some write →
    s.shared.store write.key = some write.entry ∨ write.entry.isExpired s.shared.now = true

end State

/-! ### When a value is undisturbed -/

/-- A failed load with this request removes what it falls back to. -/
def Request.fallbackFails (request : Request) : Prop :=
  ∃ stale, request.fallback = some stale ∧ stale.decodes stale.entry.value = false

/-- The instruction is part of a read that may still remove `key`. -/
def Instr.MayRemove (key : Key) : Instr → Prop
  | invalidate name => name = key
  | refreshMiss name _ _ stale => name = key ∧ stale.decodes stale.entry.value = false
  | sharedLoad request | loader request _ | checkFresh request _ _ | put request _ =>
    request.key = key ∧ request.fallbackFails
  | _ => False

/-- A step that inserts this value does so while no reader may still remove its key, and a step
that looks it up before it expires decodes it. -/
def Undisturbed (write : Write) (s : State) : Label → Prop
  | .step tid _ => ∀ instr, (s.tasks tid).code.head? = some instr →
      (instr = .insert write.key write.entry → tid = write.writer →
        ∀ other, ∀ next ∈ (s.tasks other).code, ¬ next.MayRemove write.key) ∧
      ∀ how, instr = .lookup write.key how → s.shared.store write.key = some write.entry →
        write.entry.isExpired s.shared.now = false → how.decodes write.entry.value = true
  | _ => True

/-! ### The invariant -/

/-- The instructions invalidations and flushes have and reads and writes do not. -/
def Instr.invalidating : Instr → Bool
  | removeLookup _ | takeTag _ | invalidateAll => true
  | _ => false

structure RetentionInvariant (write : Write) (s : State) : Prop where
  noInvalidation : ∀ tid, ∀ instr ∈ (s.tasks tid).code, instr.invalidating = false
  /-- What the store holds is the last insertion under its key. -/
  last : ∀ key entry, s.shared.store key = some entry →
    (s.lastWrite key).map Write.entry = some entry
  retained : s.lastWrite write.key = some write →
    s.shared.store write.key = some write.entry ∨ write.entry.isExpired s.shared.now = true
  removable : s.lastWrite write.key = some write → ∀ tid, ∀ instr ∈ (s.tasks tid).code,
    instr.MayRemove write.key → write.entry.isExpired s.shared.now = true

section Continues

variable {config : CacheConfig} {shared : Shared} {instr next : Instr} {key : Key}

theorem mayRemove_of_removalCode {name : Key} (h : RemovalCode name next)
    (hnext : next.MayRemove key) : name = key := by
  cases h with
  | invalidate => exact hnext
  | drain | unregister => exact hnext.elim

section

variable (h : Continues config shared instr next) (hinv : instr.invalidating = false)
include h hinv

/-- A read that may remove a key could so before, or has just found an entry to remove. -/
theorem Continues.mayRemove (hnext : next.MayRemove key) :
    instr.MayRemove key ∨ ∃ how entry, instr = .lookup key how ∧
      shared.store key = some entry ∧ Removable how shared.now entry := by
  have hfailed {request : Request} (h : next ∈ failedLoad shared.observed request) :
      request.key = key ∧ request.fallbackFails := by
    obtain ⟨hrem, hfails⟩ := removalCode_of_mem_failedLoad h
    exact ⟨mayRemove_of_removalCode hrem hnext, hfails⟩
  cases h with
  | lookup h =>
    cases h with
    | removal entry hfound hremovable h =>
      cases mayRemove_of_removalCode h hnext
      exact .inr ⟨_, entry, rfl, hfound, hremovable⟩
    | load =>
      obtain ⟨_, stale, hstale, _⟩ := hnext
      cases hstale
    | miss _ _ stale hfound hexp =>
      obtain ⟨rfl, _⟩ := hnext
      exact .inr ⟨_, stale.entry, rfl, hfound, .inl hexp⟩
  | refreshMiss hfallback =>
    obtain ⟨hkey, stale, hstale, hfails⟩ := hnext
    rcases hfallback with rfl | rfl
    · cases hstale
    · cases hstale
      exact .inl ⟨hkey, hfails⟩
  | joinFailed h | loadFailed h | putFailed h => exact .inl (hfailed h)
  | lead | loaded | freshPut => exact .inl hnext
  | taken | removeFound => cases hinv
  | _ => exact hnext.elim

theorem Continues.not_invalidating : next.invalidating = false := by
  have hrem {name : Key} (h : RemovalCode name next) : next.invalidating = false := by
    cases h <;> rfl
  cases h with
  | lookup h =>
    cases h with
    | removal _ _ _ h => exact hrem h
    | load | miss => rfl
  | joinFailed h | loadFailed h | putFailed h => exact hrem (removalCode_of_mem_failedLoad h).1
  | removeFound _ h => exact hrem (removalCode_of_mem_removeEntry h)
  | taken => cases hinv
  | _ => rfl

end

end Continues

section Advance

variable {config : CacheConfig} {s : State} {tid : ℕ} {choice : Choice} {instr : Instr}
  {rest : List Instr} {outcome : Outcome} {write : Write} {s s' : State}

theorem lastWrite_of_writes_cons {inserted : Write}
    (h : s'.shared.writes = inserted :: s.shared.writes) (key : Key) :
    s'.lastWrite key = if inserted.key = key then some inserted else s.lastWrite key := by
  rw [State.lastWrite, State.lastWrite, h, List.find?_cons]
  by_cases hkey : inserted.key = key <;> simp [hkey]

variable (h : RetentionInvariant write s) (hcode : (s.tasks tid).code = instr :: rest)
  (hexec : exec config tid choice s.shared instr = some outcome)
include h hcode hexec

theorem RetentionInvariant.noInvalidation_advance (other : ℕ) :
    ∀ next ∈ ((s.advance tid rest outcome).tasks other).code, next.invalidating = false := by
  intro next hnext
  rcases State.mem_code_advance hcode hnext with hnext | ⟨_, hafter⟩
  · exact h.noInvalidation other next hnext
  · exact (exec_continues hexec hafter).not_invalidating
      (h.noInvalidation tid instr (State.mem_code_of_eq_cons hcode))

variable (hundisturbed : Undisturbed write s (.step tid choice))
include hundisturbed

/-- Assumes: the last insertion is not the one this instruction makes. A read that may remove its
key after the instruction finds it expired. -/
theorem RetentionInvariant.removable_advance (hlast : s.lastWrite write.key = some write)
    {other : ℕ} {next : Instr} (hnext : next ∈ ((s.advance tid rest outcome).tasks other).code)
    (hrem : next.MayRemove write.key) : write.entry.isExpired s.shared.now = true := by
  have hinstr := State.mem_code_of_eq_cons hcode
  rcases State.mem_code_advance hcode hnext with hnext | ⟨_, hafter⟩
  · exact h.removable hlast other next hnext hrem
  · rcases (exec_continues hexec hafter).mayRemove (h.noInvalidation tid instr hinstr) hrem with
      hrem | ⟨how, entry, rfl, hfound, hremovable⟩
    · exact h.removable hlast tid instr hinstr hrem
    · -- the reader found the value itself: it is expired, or the reader cannot decode it
      have hentry : write.entry = entry := by
        have hmap := h.last write.key entry hfound
        rw [hlast] at hmap
        exact Option.some.inj hmap
      subst hentry
      rcases hremovable with hexp | hfails
      · exact hexp
      · by_contra hfresh
        have hdecs := (hundisturbed _ (by rw [hcode, List.head?_cons])).2 how rfl hfound
          (by simpa using hfresh)
        simp [hfails] at hdecs

/-- Assumes: an instruction that inserts nothing, and removes the value only if it is expired. -/
theorem RetentionInvariant.advance_of_not_insert (hwrit : outcome.shared.writes = s.shared.writes)
    (hstore : ∀ key entry, outcome.shared.store key = some entry → s.shared.store key = some entry)
    (hkept : s.lastWrite write.key = some write →
      outcome.shared.store write.key = some write.entry ∨
      write.entry.isExpired s.shared.now = true) :
    RetentionInvariant write (s.advance tid rest outcome) := by
  have hnow : (s.advance tid rest outcome).shared.now = s.shared.now := exec_now hexec
  have hlast (key : Key) : (s.advance tid rest outcome).lastWrite key = s.lastWrite key :=
    congrArg (List.find? _) hwrit
  refine ⟨h.noInvalidation_advance hcode hexec, ?_, ?_, ?_⟩
  · intro key entry hentry
    rw [hlast]
    exact h.last key entry (hstore key entry hentry)
  · intro hwrite
    rw [hlast] at hwrite
    rw [hnow]
    exact hkept hwrite
  · intro hwrite other next hnext hrem
    rw [hlast] at hwrite
    rw [hnow]
    exact h.removable_advance hcode hexec hundisturbed hwrite hnext hrem

/-- An insertion overwrites the value, is the value itself, or is one of another key. -/
theorem RetentionInvariant.advance_of_insert {key : Key} {entry : CacheEntry}
    (hinstr : instr = .insert key entry)
    (hstore : outcome.shared.store = Function.update s.shared.store key (some entry))
    (hwrit : outcome.shared.writes = ⟨tid, key, entry⟩ :: s.shared.writes) :
    RetentionInvariant write (s.advance tid rest outcome) := by
  subst hinstr
  have hnow : (s.advance tid rest outcome).shared.now = s.shared.now := exec_now hexec
  have hcons : (s.advance tid rest outcome).shared.writes = ⟨tid, key, entry⟩ :: s.shared.writes :=
    hwrit
  have hlast := lastWrite_of_writes_cons hcons
  refine ⟨h.noInvalidation_advance hcode hexec, ?_, ?_, ?_⟩
  · intro name found hfound
    rw [hlast]
    change outcome.shared.store name = _ at hfound
    rw [hstore, Function.update_apply] at hfound
    by_cases hname : name = key
    · subst hname
      rw [if_pos rfl] at hfound ⊢
      exact hfound
    · rw [if_neg hname] at hfound
      rw [if_neg (Ne.symm hname)]
      exact h.last name found hfound
  · intro hwrite
    rw [hlast] at hwrite
    change outcome.shared.store write.key = _ ∨ _
    rw [hnow, hstore, Function.update_apply]
    by_cases hkey : key = write.key
    · rw [if_pos hkey, Option.some.injEq] at hwrite
      rw [if_pos hkey.symm, ← hwrite]
      exact .inl rfl
    · rw [if_neg hkey] at hwrite
      rw [if_neg (Ne.symm hkey)]
      exact h.retained hwrite
  · intro hwrite other next hnext hrem
    rw [hlast] at hwrite
    rw [hnow]
    by_cases hkey : key = write.key
    · -- this is the insertion of the value, and no reader may remove its key
      rw [if_pos hkey, Option.some.injEq] at hwrite
      subst hwrite
      have hquiet := (hundisturbed _ (by rw [hcode, List.head?_cons])).1 rfl rfl
      rcases State.mem_code_advance hcode hnext with hnext | ⟨_, hafter⟩
      · exact (hquiet other next hnext hrem).elim
      · cases hexec
        simp only [List.mem_cons, List.not_mem_nil, or_false] at hafter
        rcases hafter with rfl | rfl <;> exact hrem.elim
    · rw [if_neg hkey] at hwrite
      exact h.removable_advance hcode hexec hundisturbed hwrite hnext hrem

theorem RetentionInvariant.advance : RetentionInvariant write (s.advance tid rest outcome) := by
  have hinstr := State.mem_code_of_eq_cons hcode
  cases exec_storeEffect hexec with
  | keeps _ hstore hwrit =>
    refine h.advance_of_not_insert hcode hexec hundisturbed hwrit ?_ ?_
    · rw [hstore]
      exact fun _ _ hentry ↦ hentry
    · rw [hstore]
      exact h.retained
  | removes _ hstore hwrit =>
    refine h.advance_of_not_insert hcode hexec hundisturbed hwrit ?_ ?_
    · intro name entry hentry
      rw [hstore, Function.update_apply] at hentry
      split_ifs at hentry
      exact hentry
    · intro hwrite
      rw [hstore, Function.update_apply]
      split_ifs with hkey
      · exact .inr (h.removable hwrite tid _ hinstr hkey.symm)
      · exact h.retained hwrite
  | removesAll => cases h.noInvalidation tid _ hinstr
  | inserts _ _ hstore hwrit => exact h.advance_of_insert hcode hexec hundisturbed rfl hstore hwrit

end Advance

variable {write : Write} {s : State}

theorem RetentionInvariant.start (h : RetentionInvariant write s)
    {op : Op} (hop : op.readsOrWrites) : RetentionInvariant write (s.start op) := by
  have hcode : ∀ instr ∈ op.code s.shared.observed,
      instr.invalidating = false ∧ ∀ key, ¬ instr.MayRemove key := by
    cases op with
    | read | put | backgroundRefresh =>
      simp [Op.code, Instr.invalidating, Instr.MayRemove, Request.fallbackFails]
    | invalidateKey | invalidateTag | flush => exact hop.elim
  refine ⟨?_, h.last, h.retained, ?_⟩
  · intro tid instr hinstr
    rw [State.tasks_start] at hinstr
    split_ifs at hinstr
    · exact (hcode instr hinstr).1
    · exact h.noInvalidation tid instr hinstr
  · intro hlast tid instr hinstr hrem
    rw [State.tasks_start] at hinstr
    split_ifs at hinstr
    · exact ((hcode instr hinstr).2 _ hrem).elim
    · exact h.removable hlast tid instr hinstr hrem

theorem RetentionInvariant.elapse (h : RetentionInvariant write s)
    (time : Instant) : RetentionInvariant write
      { s with shared := { s.shared with now := s.shared.now + time } } where
  __ := h
  retained hlast := (h.retained hlast).imp_right fun hexp ↦
    CacheEntry.isExpired_mono hexp (Nat.le_add_right _ _)
  removable hlast tid instr hinstr hrem :=
    CacheEntry.isExpired_mono (h.removable hlast tid instr hinstr hrem) (Nat.le_add_right _ _)

theorem retentionInvariant_initial (write : Write) (observed : Bool) :
    RetentionInvariant write (State.initial observed) where
  noInvalidation tid instr hinstr := by cases hinstr
  last key entry hentry := by cases hentry
  retained hlast := by cases hlast
  removable hlast := by cases hlast

theorem retentionInvariant_of_step (config : CacheConfig) (write : Write) (s : State)
    (label : Label) (s' : State) (hC : ReadsAndWrites s label ∧ Undisturbed write s label)
    (h : RetentionInvariant write s) (hstep : step config s label = some s') :
    RetentionInvariant write s' := by
  refine step_preserves (C := fun s label ↦ ReadsAndWrites s label ∧ Undisturbed write s label)
    Op.readsOrWrites (fun _ _ hC ↦ hC.1) (fun _ _ ↦ trivial)
    (fun s op hop h ↦ h.start hop)
    (fun s tid choice instr rest outcome hC h hcode hexec ↦ h.advance hcode hexec hC.2)
    (fun s time h ↦ h.elapse time) (fun s key hC _ ↦ hC.1.elim)
    (fun s other _ _ h ↦ { h with })
    s label s' hC h hstep

/-! ### Runs -/

/-- Assumes: a run of reads, loads and puts from a fresh cache that leaves this value undisturbed.
If a put made it and has returned, and nothing was inserted under its key since, then the store
holds the value or its time to live has passed. -/
theorem retainedPut_of_undisturbed (config : CacheConfig) (observed : Bool) (labels : List Label)
    (s : State) (write : Write) (hrun : run (step config) (.initial observed) labels = some s)
    (hlabels : Along (step config) ReadsAndWrites (.initial observed) labels)
    (hundisturbed : Along (step config) (Undisturbed write) (.initial observed) labels) :
    s.RetainedPut write := by
  intro key value options _ _ hlast
  exact (run_invariant (retentionInvariant_of_step config write)
    (retentionInvariant_initial write observed) (hlabels.and hundisturbed) hrun).retained hlast

/-- A step that neither inserts nor looks up disturbs nothing. -/
theorem Undisturbed.of_instr {tid : ℕ} {choice : Choice} {instr : Instr} {rest : List Instr}
    (hcode : (s.tasks tid).code = instr :: rest) (hins : ∀ key entry, instr ≠ .insert key entry)
    (hlook : ∀ key how, instr ≠ .lookup key how) : Undisturbed write s (.step tid choice) := by
  intro head hhead
  rw [hcode, List.head?_cons, Option.some.injEq] at hhead
  subst hhead
  exact ⟨fun h ↦ (hins _ _ h).elim, fun how h ↦ (hlook _ how h).elim⟩

/-- A value is put and looked up before it expires. -/
def readPutLabels : List Label :=
  [.start (.put "user:1" [1] {}), .step 0 .proceed, .step 0 .proceed, .step 0 .proceed,
    .step 0 .proceed, .step 0 .proceed, .start (.read "user:1" .getEncoded), .step 1 .proceed]

theorem undisturbed_readPutLabels : Along (step sampleConfig)
    (Undisturbed ⟨0, "user:1", ⟨[1], [], some 10, 1⟩⟩) (.initial true) readPutLabels := by
  refine .cons rfl trivial ?_
  iterate 2 refine .cons rfl (.of_instr rfl nofun nofun) ?_
  refine .cons rfl (fun instr hhead ↦ ⟨fun _ _ other next hnext ↦ ?_, fun how h ↦ ?_⟩) ?_
  · rcases other with _ | other
    · rw [List.mem_singleton.mp hnext]
      exact not_false
    · cases hnext
  · cases hhead
    cases h
  iterate 2 refine .cons rfl (.of_instr rfl nofun nofun) ?_
  refine .cons rfl trivial ?_
  refine ⟨fun instr hhead ↦ ⟨fun h ↦ ?_, fun how h ↦ ?_⟩, fun _ _ ↦ trivial⟩
  · cases hhead
    cases h
  · cases hhead
    cases h
    exact fun _ _ ↦ rfl

theorem retainedPut_readPutLabels :
    ∃ s, run (step sampleConfig) (.initial true) readPutLabels = some s ∧
      s.RetainedPut ⟨0, "user:1", ⟨[1], [], some 10, 1⟩⟩ := by
  refine ⟨_, rfl, retainedPut_of_undisturbed sampleConfig true readPutLabels _ _ rfl ?_
    undisturbed_readPutLabels⟩
  refine along_of_forall_mem ?_ _
  simp [readPutLabels, ReadsAndWrites, Op.readsOrWrites]

/-- A value is put, and a reader of another type looks it up before it expires. -/
def undecodableReadLabels : List Label :=
  [.start (.put "user:1" [1] {}), .step 0 .proceed, .step 0 .proceed, .step 0 .proceed,
    .step 0 .proceed, .step 0 .proceed,
    .start (.read "user:1" (.get fun _ ↦ false)), .step 1 .proceed, .step 1 .proceed,
    .step 1 .proceed]

/-- A reader finds an expired value, a second value is put, and the reader removes it. -/
def crossingReadLabels : List Label :=
  [.start (.put "user:1" [1] { ttl := some 1 }), .step 0 .proceed, .step 0 .proceed,
    .step 0 .proceed, .step 0 .proceed, .step 0 .proceed, .elapse 5,
    .start (.read "user:1" .containsKey), .step 1 .proceed,
    .start (.put "user:1" [2] {}), .step 2 .proceed, .step 2 .proceed, .step 2 .proceed,
    .step 2 .proceed, .step 2 .proceed, .step 1 .proceed, .step 1 .proceed]

/-- Runs of reads and puts alone lose a put that has returned, was not overwritten and has not
expired: to a reader that cannot decode it, and to one that had found an older value. -/
theorem retainedPut_lost_to_readers :
    (∃ s, run (step sampleConfig) (.initial true) undecodableReadLabels = some s ∧
      Along (step sampleConfig) ReadsAndWrites (.initial true) undecodableReadLabels ∧
      ¬ s.RetainedPut ⟨0, "user:1", ⟨[1], [], some 10, 1⟩⟩) ∧
    ∃ s, run (step sampleConfig) (.initial true) crossingReadLabels = some s ∧
      Along (step sampleConfig) ReadsAndWrites (.initial true) crossingReadLabels ∧
      ¬ s.RetainedPut ⟨2, "user:1", ⟨[2], [], some 15, 2⟩⟩ := by
  refine ⟨⟨_, rfl, along_of_forall_mem ?_ _, fun h ↦ ?_⟩,
    ⟨_, rfl, along_of_forall_mem ?_ _, fun h ↦ ?_⟩⟩
  · simp [undecodableReadLabels, ReadsAndWrites, Op.readsOrWrites]
  · rcases h "user:1" [1] {} rfl rfl rfl with hstore | hexp
    · cases hstore
    · revert hexp
      decide
  · simp [crossingReadLabels, ReadsAndWrites, Op.readsOrWrites]
  · rcases h "user:1" [2] {} rfl rfl rfl with hstore | hexp
    · cases hstore
    · revert hexp
      decide

end HydraCache.Local
