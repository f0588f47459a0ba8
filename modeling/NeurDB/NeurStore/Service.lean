import NeurDB.NeurStore.Compressor

/-!
# The NeurStore service over its lifetime

`run_neurstore` hands tasks to a pool of threads until it is told to shut down. A save task
compresses a model, which inserts base tensors into the indexes of the cache, and then writes
the structure and the tensor page of the model to two files; a dry run compresses a model and
writes nothing; a load reads the files and gets indexes. The indexes themselves reach the disk
when they are evicted, or when a clean-cache task clears the cache.

A model survives the end of the service if its two files and the index files of all its packets
are there (`Durable`). Two things stand in the way:

* the service exits without clearing the cache, so what was inserted since it was last cleared
  and has not been evicted is lost;
* `saveModel` drops the result of `saveModelInternal`, so a failed write is answered with
  success.

The threads interleave in any way. Two saves to the same files at a time mix them up, as nothing
orders their writes. `saved_models_survive` is about the runs without these three. Of two writers
of one file the last one's content is kept here, which is the best that can be hoped for. Index
files can be opened and are written in full, as in the model of the cache.

A name stands for the pair of files that it denotes: texts that denote one pair are one name.
-/

namespace NeurDB.NeurStore

open Function List
open Option (bind_eq_some_iff bind_some map_eq_some_iff some)

/-! ### Files and tasks -/

/-- A file that was opened for writing, as the last writer leaves it. -/
inductive Stored (β : Type) where
  | broken
  | whole (b : β)
  deriving DecidableEq, Repr

/-- How a write ends. The stream is asked before it is closed, so what is lost when its buffer is
flushed goes unnoticed. -/
inductive WriteOutcome where
  | fails
  | lostAtClose
  | written
  deriving DecidableEq, Repr

def WriteOutcome.leaves {β : Type} (b : β) : WriteOutcome → Stored β
  | .written => .whole b
  | .fails | .lostAtClose => .broken

/-- Where a save or a dry run is. -/
inductive Phase (δ : Type) where
  | compressing
  | compressed (page : List (Entry δ))
  | opened (page : List (Entry δ))
  | structureWritten (page : List (Entry δ))

def Phase.page? {δ : Type} : Phase δ → Option (List (Entry δ))
  | .compressing => none
  | .compressed page | .opened page | .structureWritten page => some page

/-- The phases in which the files of the model are not what they were, and not yet new. -/
def Phase.Writing {δ : Type} : Phase δ → Prop
  | .compressing | .compressed _ => False
  | .opened _ | .structureWritten _ => True

/-- A task that compresses. A save has the name and the structure of its model. -/
structure Task (ν σ δ : Type) where
  target : Option (ν × σ)
  phase : Phase δ

/-- The process and the store directory; `ν` are the pairs of files that a name can denote. -/
structure ServiceState (ν σ δ φ : Type) where
  engine : CompressState δ φ
  tasks : ℕ → Option (Task ν σ δ)
  /-- The tasks in the pool. -/
  active : List ℕ
  structureFiles : ν → Option (Stored σ)
  tensorFiles : ν → Option (Stored (List (Entry δ)))
  /-- The model last answered with success, for each name. -/
  answered : ν → Option (σ × List (Entry δ))
  running : Bool

inductive ServiceLabel (ν σ : Type) where
  | begin (c : ℕ) (target : Option (ν × σ)) (tensors : List TensorF64)
  | engine (l : CompressLabel)
  | finish (c : ℕ)
  | openFiles (c : ℕ) (structureOpens tensorsOpen : Bool)
  | writeStructure (c : ℕ) (outcome : WriteOutcome)
  | writeTensors (c : ℕ) (outcome : WriteOutcome)
  | cleanCache
  | exit

/-- The steps of a compression between its start and its end, and those of loads. -/
def CompressLabel.Internal : CompressLabel → Prop
  | .start _ _ | .finish _ | .clearCache => False
  | .route _ _ _ | .get _ _ | .compressTensor _ _ _ | .release _ _ | .getIndex _ _
  | .insert _ _ | .releaseIndex _ | .readerGet _ _ | .readerRelease _ => True

instance (l : CompressLabel) : Decidable l.Internal :=
  match l with
  | .start _ _ | .finish _ | .clearCache => inferInstanceAs (Decidable False)
  | .route _ _ _ | .get _ _ | .compressTensor _ _ _ | .release _ _ | .getIndex _ _
  | .insert _ _ | .releaseIndex _ | .readerGet _ _ | .readerRelease _ =>
    inferInstanceAs (Decidable True)

/-- The steps of loads. -/
def CompressLabel.IsLoad : CompressLabel → Prop
  | .readerGet _ _ | .readerRelease _ => True
  | .start _ _ | .finish _ | .clearCache | .route _ _ _ | .get _ _ | .compressTensor _ _ _
  | .release _ _ | .getIndex _ _ | .insert _ _ | .releaseIndex _ => False

namespace ServiceState

variable {ν σ δ φ : Type} [DecidableEq ν]

/-- No thread works, and no index is in use. -/
def Idle (s : ServiceState ν σ δ φ) : Prop := s.active = [] ∧ s.engine.store.handles = []

instance (s : ServiceState ν σ δ φ) : Decidable s.Idle := inferInstanceAs (Decidable (_ ∧ _))

def setTask (s : ServiceState ν σ δ φ) (c : ℕ) (t : Task ν σ δ) : ServiceState ν σ δ φ :=
  { s with tasks := update s.tasks c (some t) }

def endTask (s : ServiceState ν σ δ φ) (c : ℕ) : ServiceState ν σ δ φ :=
  { s with tasks := update s.tasks c none, active := s.active.filter (· ≠ c) }

/-- `saveModel` returns `true` whatever `saveModelInternal` returns, so the task ends and is
answered with `NS_TASK_OK`. -/
def answerOk (s : ServiceState ν σ δ φ) (c : ℕ) (name : ν) (structure' : σ)
    (page : List (Entry δ)) : ServiceState ν σ δ φ :=
  { s.endTask c with answered := update s.answered name (some (structure', page)) }

def setStructureFile (s : ServiceState ν σ δ φ) (name : ν) (f : Stored σ) :
    ServiceState ν σ δ φ :=
  { s with structureFiles := update s.structureFiles name (some f) }

def setTensorFile (s : ServiceState ν σ δ φ) (name : ν) (f : Stored (List (Entry δ))) :
    ServiceState ν σ δ φ :=
  { s with tensorFiles := update s.tensorFiles name (some f) }

end ServiceState

section Service

variable {ν σ δ φ : Type} [DecidableEq ν] (ops : CompressorOps δ) (fmt : IndexFormat φ)
  (maxBytes : ℤ)

/-- The steps of `saveModelInternal`. Opening a file for writing empties it. -/
def writeStep (s : ServiceState ν σ δ φ) (c : ℕ) (name : ν) (structure' : σ) :
    Phase δ → ServiceLabel ν σ → Option (ServiceState ν σ δ φ)
  | .compressed page, .openFiles _ structureOpens tensorsOpen =>
    if structureOpens then
      if tensorsOpen then
        some (((s.setStructureFile name .broken).setTensorFile name .broken).setTask c
          ⟨some (name, structure'), .opened page⟩)
      else some ((s.setStructureFile name .broken).answerOk c name structure' page)
    else some (s.answerOk c name structure' page)
  | .opened page, .writeStructure _ outcome =>
    let s' := s.setStructureFile name (outcome.leaves structure')
    match outcome with
    | .fails => some (s'.answerOk c name structure' page)
    | .lostAtClose | .written =>
      some (s'.setTask c ⟨some (name, structure'), .structureWritten page⟩)
  | .structureWritten page, .writeTensors _ outcome =>
    some ((s.setTensorFile name (outcome.leaves page)).answerOk c name structure' page)
  | _, _ => none

/-- One step of the service while it runs. -/
def runningStep (s : ServiceState ν σ δ φ) :
    ServiceLabel ν σ → Option (ServiceState ν σ δ φ)
  | .begin c target tensors =>
    if s.tasks c = none then
      (compressStep ops fmt maxBytes s.engine (.start c tensors)).map fun engine =>
        { s with engine := engine, active := c :: s.active }.setTask c ⟨target, .compressing⟩
    else none
  | .engine l =>
    if l.Internal then
      (compressStep ops fmt maxBytes s.engine l).map fun engine => { s with engine := engine }
    else none
  | .finish c =>
    match s.tasks c with
    | some ⟨target, .compressing⟩ =>
      (compressStep ops fmt maxBytes s.engine (.finish c)).bind fun engine =>
        engine.pages.getLast?.map fun page =>
          let s' := { s with engine := engine }
          -- a dry run has nothing to write
          if target.isSome then s'.setTask c ⟨target, .compressed page⟩ else s'.endTask c
    | _ => none
  | .cleanCache =>
    (compressStep ops fmt maxBytes s.engine .clearCache).map fun engine =>
      { s with engine := engine }
  | .exit => if s.Idle then some { s with running := false } else none
  | .openFiles c a b => (s.tasks c).bind fun t =>
      t.target.bind fun (name, structure') =>
        writeStep s c name structure' t.phase (.openFiles c a b)
  | .writeStructure c o => (s.tasks c).bind fun t =>
      t.target.bind fun (name, structure') =>
        writeStep s c name structure' t.phase (.writeStructure c o)
  | .writeTensors c o => (s.tasks c).bind fun t =>
      t.target.bind fun (name, structure') =>
        writeStep s c name structure' t.phase (.writeTensors c o)

def serviceStep (s : ServiceState ν σ δ φ) (l : ServiceLabel ν σ) :
    Option (ServiceState ν σ δ φ) :=
  if s.running then runningStep ops fmt maxBytes s l else none

/-- A service that starts over any store directory. -/
def serviceInit (s : ServiceState ν σ δ φ) : Prop :=
  (compressSystem ops fmt maxBytes).init s.engine ∧ (s.tasks = fun _ => none) ∧ s.active = [] ∧
    (s.answered = fun _ => none) ∧ s.running = true

def serviceSystem : System (ServiceState ν σ δ φ) (ServiceLabel ν σ) :=
  .ofFun (serviceInit ops fmt maxBytes) (serviceStep ops fmt maxBytes)

/-! ### Surviving -/

/-- The files of a model are complete, and each of its packets finds its base in an index
file. -/
structure Durable (s : ServiceState ν σ δ φ) (name : ν) (structure' : σ)
    (page : List (Entry δ)) : Prop where
  structure_file : s.structureFiles name = some (.whole structure')
  tensor_file : s.tensorFiles name = some (.whole page)
  index_file : ∀ e ∈ page, ∃ file index,
    s.engine.store.cache.files e.packet.key = some file ∧
      fmt.deserialize file = some index ∧
      index.retrieve ops.toQuantizer e.packet.baseTensorId = some e.base

/-- A step that keeps to the conditions: writes succeed, and a save of a name starts only when
no other one runs. -/
def Orderly (s : ServiceState ν σ δ φ) : ServiceLabel ν σ → Prop
  | .begin _ target _ => ∀ name ∈ target.map Prod.fst, ∀ c ∈ s.active,
      ((s.tasks c).bind Task.target).map Prod.fst ≠ some name
  | .openFiles _ structureOpens tensorsOpen => structureOpens = true ∧ tensorsOpen = true
  | .writeStructure _ outcome | .writeTensors _ outcome => outcome = .written
  | .engine _ | .finish _ | .cleanCache | .exit => True

/-- A step of a load. -/
def ServiceLabel.IsLoad : ServiceLabel ν σ → Prop
  | .engine l => l.IsLoad
  | _ => False

variable {ops fmt maxBytes}

variable {l : CompressLabel} {e e' : CompressState δ φ}

/-! ### Steps that do not concern a task -/

variable {s s' : ServiceState ν σ δ φ} {k : IndexKey}

theorem of_engine (h : serviceStep ops fmt maxBytes s (.engine l) = some s') :
    ∃ e, compressStep ops fmt maxBytes s.engine l = some e ∧ s' = { s with engine := e } := by
  unfold serviceStep runningStep at h
  dsimp only at h
  split_ifs at h
  obtain ⟨e, he, rfl⟩ := map_eq_some_iff.mp h
  exact ⟨e, he, rfl⟩

theorem of_cleanCache (h : serviceStep ops fmt maxBytes s .cleanCache = some s') :
    ∃ e, compressStep ops fmt maxBytes s.engine .clearCache = some e ∧
      s' = { s with engine := e } := by
  unfold serviceStep runningStep at h
  dsimp only at h
  split_ifs at h
  obtain ⟨e, he, rfl⟩ := map_eq_some_iff.mp h
  exact ⟨e, he, rfl⟩

theorem of_exit (h : serviceStep ops fmt maxBytes s .exit = some s') :
    s.Idle ∧ s' = { s with running := false } := by
  unfold serviceStep runningStep at h
  split_ifs at h with hrunning hidle
  exact ⟨hidle, (some.inj h).symm⟩

/-! ### The invariant -/

/-- Whether a task saves a model of this name. -/
def Task.Saves (t : Task ν σ δ) (name : ν) : Prop :=
  ∃ structure', t.target = some (name, structure')

/-- What orderly steps preserve. -/
structure ServiceInv (ops : CompressorOps δ) (fmt : IndexFormat φ) (s : ServiceState ν σ δ φ) :
    Prop where
  engine : CompressInv ops fmt s.engine
  active : ∀ c t, s.tasks c = some t → c ∈ s.active
  pages : ∀ c t page, s.tasks c = some t → t.phase.page? = some page → page ∈ s.engine.pages
  answered : ∀ name structure' page, s.answered name = some (structure', page) →
    page ∈ s.engine.pages
  names : ∀ c c' t t' name, s.tasks c = some t → s.tasks c' = some t' → t.Saves name →
    t'.Saves name → c = c'
  files : ∀ name structure' page, s.answered name = some (structure', page) →
    (∀ c t, s.tasks c = some t → t.Saves name → ¬t.phase.Writing) →
    s.structureFiles name = some (.whole structure') ∧ s.tensorFiles name = some (.whole page)
  written : ∀ c name structure' page,
    s.tasks c = some ⟨some (name, structure'), .structureWritten page⟩ →
    s.structureFiles name = some (.whole structure')

namespace ServiceInv

variable {s : ServiceState ν σ δ φ}

omit [DecidableEq ν] in
theorem setEngine (h : ServiceInv ops fmt s) {e : CompressState δ φ}
    (hinv : CompressInv ops fmt e) (hpages : ∀ page ∈ s.engine.pages, page ∈ e.pages) :
    ServiceInv ops fmt { s with engine := e } :=
  ⟨hinv, h.active, fun c t page ht hp => hpages _ (h.pages c t page ht hp),
    fun name structure' page ha => hpages _ (h.answered name structure' page ha),
    h.names, h.files, h.written⟩

variable {c : ℕ} {target : Option (ν × σ)}

omit [DecidableEq ν] in
theorem begin (h : ServiceInv ops fmt s) (hfree : s.tasks c = none)
    (hnew : ∀ c' t name structure', s.tasks c' = some t → t.Saves name →
      target ≠ some (name, structure')) :
    ServiceInv ops fmt ({ s with active := c :: s.active }.setTask c ⟨target, .compressing⟩) := by
  refine ⟨h.engine, ?_, ?_, h.answered, ?_, ?_, ?_⟩
  · intro c' t ht
    rcases update_some_iff.mp ht with ⟨rfl, -⟩ | ⟨-, ht⟩
    · exact mem_cons_self
    · exact mem_cons_of_mem _ (h.active c' t ht)
  · intro c' t page ht hp
    rcases update_some_iff.mp ht with ⟨-, rfl⟩ | ⟨-, ht⟩
    · cases hp
    · exact h.pages c' t page ht hp
  · intro c₁ c₂ t₁ t₂ name h₁ h₂ hs₁ hs₂
    rcases update_some_iff.mp h₁ with ⟨hc₁, rfl⟩ | ⟨-, hold₁⟩ <;>
      rcases update_some_iff.mp h₂ with ⟨hc₂, rfl⟩ | ⟨-, hold₂⟩
    · rw [hc₁, hc₂]
    · obtain ⟨structure', heq⟩ := hs₁
      exact absurd heq (hnew c₂ t₂ name structure' hold₂ hs₂)
    · obtain ⟨structure', heq⟩ := hs₂
      exact absurd heq (hnew c₁ t₁ name structure' hold₁ hs₁)
    · exact h.names c₁ c₂ t₁ t₂ name hold₁ hold₂ hs₁ hs₂
  · intro name structure' page ha hquiet
    refine h.files name structure' page ha fun c' t ht hs => ?_
    have hne : c' ≠ c := by
      rintro rfl
      rw [hfree] at ht
      cases ht
    exact hquiet c' t (update_some_iff.mpr (Or.inr ⟨hne, ht⟩)) hs
  · intro c' name structure' page ht
    rcases update_some_iff.mp ht with ⟨-, heq⟩ | ⟨-, ht⟩
    · cases heq
    · exact h.written c' name structure' page ht

variable {page : List (Entry δ)} {phase : Phase δ} {structure' : σ} {s' : ServiceState ν σ δ φ}
  {l : ServiceLabel ν σ} {name : ν}

omit [DecidableEq ν] in
/-- A task that keeps its target stays active, and its name stays its own. -/
theorem keep (h : ServiceInv ops fmt s) {t₀ t : Task ν σ δ} (hc : s.tasks c = some t₀)
    (htarget : t₀.target = t.target) :
    (∀ c' t', update s.tasks c (some t) c' = some t' → c' ∈ s.active) ∧
      ∀ c₁ c₂ t₁ t₂ name, update s.tasks c (some t) c₁ = some t₁ →
        update s.tasks c (some t) c₂ = some t₂ → t₁.Saves name → t₂.Saves name → c₁ = c₂ := by
  have hold : ∀ c' t', update s.tasks c (some t) c' = some t' →
      ∃ t'', s.tasks c' = some t'' ∧ t''.target = t'.target := by
    intro c' t' ht
    rcases update_some_iff.mp ht with ⟨rfl, rfl⟩ | ⟨-, ht⟩
    · exact ⟨_, hc, htarget⟩
    · exact ⟨t', ht, rfl⟩
  constructor
  · intro c' t' ht
    obtain ⟨t'', ht'', -⟩ := hold c' t' ht
    exact h.active c' t'' ht''
  · intro c₁ c₂ t₁ t₂ name h₁ h₂ hs₁ hs₂
    obtain ⟨t₁', h₁', heq₁⟩ := hold c₁ t₁ h₁
    obtain ⟨t₂', h₂', heq₂⟩ := hold c₂ t₂ h₂
    refine h.names c₁ c₂ t₁' t₂' name h₁' h₂' ?_ ?_
    · rwa [Task.Saves, heq₁]
    · rwa [Task.Saves, heq₂]

omit [DecidableEq ν] in
theorem compressed (h : ServiceInv ops fmt s)
    (hc : s.tasks c = some ⟨target, .compressing⟩) (hpage : page ∈ s.engine.pages) :
    ServiceInv ops fmt (s.setTask c ⟨target, .compressed page⟩) := by
  -- the task is the same one, and it does not write yet
  obtain ⟨hactive, hnames⟩ := h.keep hc (t := ⟨target, .compressed page⟩) rfl
  refine ⟨h.engine, hactive, ?_, h.answered, hnames, ?_, ?_⟩
  · intro c' t page' ht hp
    rcases update_some_iff.mp ht with ⟨-, rfl⟩ | ⟨-, ht⟩
    · cases hp
      exact hpage
    · exact h.pages c' t page' ht hp
  · intro name structure' page' ha hquiet
    refine h.files name structure' page' ha fun c' t ht hs => ?_
    by_cases hne : c' = c
    · subst hne
      obtain rfl := some.inj (hc.symm.trans ht)
      exact id
    · exact hquiet c' t (update_some_iff.mpr (Or.inr ⟨hne, ht⟩)) hs
  · intro c' name structure' page' ht
    rcases update_some_iff.mp ht with ⟨-, heq⟩ | ⟨-, ht⟩
    · cases heq
    · exact h.written c' name structure' page' ht

omit [DecidableEq ν] in
theorem endTask (h : ServiceInv ops fmt s) (hc : s.tasks c = some ⟨none, phase⟩) :
    ServiceInv ops fmt (s.endTask c) := by
  refine ⟨h.engine, ?_, ?_, h.answered, ?_, ?_, ?_⟩
  · intro c' t ht
    obtain ⟨hne, ht⟩ := update_none_iff.mp ht
    exact mem_filter.mpr ⟨h.active c' t ht, by simpa using hne⟩
  · intro c' t page ht hp
    exact h.pages c' t page (update_none_iff.mp ht).2 hp
  · intro c₁ c₂ t₁ t₂ name h₁ h₂
    exact h.names c₁ c₂ t₁ t₂ name (update_none_iff.mp h₁).2 (update_none_iff.mp h₂).2
  · intro name structure' page ha hquiet
    refine h.files name structure' page ha fun c' t ht hs => ?_
    have hne : c' ≠ c := by
      rintro rfl
      obtain rfl := some.inj (hc.symm.trans ht)
      obtain ⟨structure', heq⟩ := hs
      cases heq
    exact hquiet c' t (update_none_iff.mpr ⟨hne, ht⟩) hs
  · intro c' name structure' page ht
    exact h.written c' name structure' page (update_none_iff.mp ht).2

omit [DecidableEq ν] in
/-- A save writes to the files of its name. No other task depends on them. -/
theorem writing {phase' : Phase δ} {sf : ν → Option (Stored σ)}
    {tf : ν → Option (Stored (List (Entry δ)))} (h : ServiceInv ops fmt s)
    (hc : s.tasks c = some ⟨some (name, structure'), phase⟩) (hpage : phase.page? = some page)
    (hpage' : phase'.page? = some page) (hwriting : phase'.Writing)
    (hsf : ∀ name' ≠ name, sf name' = s.structureFiles name')
    (htf : ∀ name' ≠ name, tf name' = s.tensorFiles name')
    (hwritten : phase' = .structureWritten page → sf name = some (.whole structure')) :
    ServiceInv ops fmt
      ({ s with structureFiles := sf, tensorFiles := tf }.setTask c
        ⟨some (name, structure'), phase'⟩) := by
  obtain ⟨hactive, hnames⟩ := h.keep hc (t := ⟨some (name, structure'), phase'⟩) rfl
  refine ⟨h.engine, hactive, ?_, h.answered, hnames, ?_, ?_⟩
  · intro c' t page₁ ht hp
    rcases update_some_iff.mp ht with ⟨-, rfl⟩ | ⟨-, ht⟩
    · obtain rfl := some.inj (hpage'.symm.trans hp)
      exact h.pages c _ _ hc hpage
    · exact h.pages c' t page₁ ht hp
  · intro name' structure₁ page₁ ha hquiet
    -- nothing is said about the name that is being written
    have hne : name' ≠ name := by
      rintro rfl
      exact hquiet c _ (update_some_iff.mpr (Or.inl ⟨rfl, rfl⟩)) ⟨structure', rfl⟩ hwriting
    refine (h.files name' structure₁ page₁ ha fun c' t ht hs => ?_).imp (hsf name' hne).trans
      (htf name' hne).trans
    have hcne : c' ≠ c := by
      rintro rfl
      obtain rfl := some.inj (hc.symm.trans ht)
      obtain ⟨structure₂, heq⟩ := hs
      exact hne (Prod.mk.inj (some.inj heq)).1.symm
    exact hquiet c' t (update_some_iff.mpr (Or.inr ⟨hcne, ht⟩)) hs
  · intro c' name' structure₁ page₁ ht
    rcases update_some_iff.mp ht with ⟨-, heq⟩ | ⟨hcne, hother⟩
    · obtain ⟨htarget, hphase⟩ := Task.mk.inj heq
      cases htarget
      subst hphase
      cases hpage'
      exact hwritten rfl
    · refine (hsf name' ?_).trans (h.written c' name' structure₁ page₁ hother)
      rintro rfl
      exact hcne (h.names c' c _ _ name' hother hc ⟨structure₁, rfl⟩ ⟨structure', rfl⟩)

theorem answerOk (h : ServiceInv ops fmt s)
    (hc : s.tasks c = some ⟨some (name, structure'), .structureWritten page⟩) :
    ServiceInv ops fmt
      ((s.setTensorFile name (.whole page)).answerOk c name structure' page) := by
  refine ⟨h.engine, ?_, ?_, ?_, ?_, ?_, ?_⟩
  · intro c' t ht
    obtain ⟨hne, ht⟩ := update_none_iff.mp ht
    exact mem_filter.mpr ⟨h.active c' t ht, by simpa using hne⟩
  · intro c' t page₁ ht hp
    exact h.pages c' t page₁ (update_none_iff.mp ht).2 hp
  · intro name' structure₁ page₁ ha
    rcases update_some_iff.mp ha with ⟨-, heq⟩ | ⟨-, ha⟩
    · obtain ⟨-, rfl⟩ := Prod.mk.inj heq
      exact h.pages c _ _ hc rfl
    · exact h.answered name' structure₁ page₁ ha
  · intro c₁ c₂ t₁ t₂ name' h₁ h₂
    exact h.names c₁ c₂ t₁ t₂ name' (update_none_iff.mp h₁).2 (update_none_iff.mp h₂).2
  · intro name' structure₁ page₁ ha hquiet
    rcases update_some_iff.mp ha with ⟨rfl, heq⟩ | ⟨hne, ha⟩
    · obtain ⟨rfl, rfl⟩ := Prod.mk.inj heq
      exact ⟨h.written c _ _ _ hc, update_self _ _ _⟩
    · have hfiles := h.files name' structure₁ page₁ ha fun c' t ht hs => by
        have hcne : c' ≠ c := by
          rintro rfl
          obtain rfl := some.inj (hc.symm.trans ht)
          obtain ⟨structure₂, heq⟩ := hs
          exact hne (Prod.mk.inj (some.inj heq)).1.symm
        exact hquiet c' t (update_none_iff.mpr ⟨hcne, ht⟩) hs
      exact ⟨hfiles.1, (update_of_ne hne _ _).trans hfiles.2⟩
  · intro c' name' structure₁ page₁ ht
    exact h.written c' name' structure₁ page₁ (update_none_iff.mp ht).2

theorem writeStep
    (h : ServiceInv ops fmt s) (hc : s.tasks c = some ⟨some (name, structure'), phase⟩)
    (hl : Orderly s l) (hstep : writeStep s c name structure' phase l = some s') :
    ServiceInv ops fmt s' := by
  unfold NeurStore.writeStep at hstep
  split at hstep
  · obtain ⟨rfl, rfl⟩ := hl
    cases hstep
    exact h.writing hc rfl rfl trivial (fun _ hne => update_of_ne hne _ _)
      (fun _ hne => update_of_ne hne _ _) (fun heq => by cases heq)
  · obtain rfl : _ = WriteOutcome.written := hl
    cases hstep
    exact h.writing hc rfl rfl trivial (fun _ hne => update_of_ne hne _ _)
      (fun _ _ => rfl) (fun _ => update_self _ _ _)
  · obtain rfl : _ = WriteOutcome.written := hl
    cases hstep
    exact h.answerOk hc
  · cases hstep

theorem step (h : ServiceInv ops fmt s)
    (hl : Orderly s l) (hstep : serviceStep ops fmt maxBytes s l = some s') :
    ServiceInv ops fmt s' := by
  have hrun : ∃ hrunning : s.running = true, runningStep ops fmt maxBytes s l = some s' := by
    unfold serviceStep at hstep
    split_ifs at hstep with hrunning
    exact ⟨hrunning, hstep⟩
  obtain ⟨-, hrun⟩ := hrun
  cases l with
  | begin c target tensors =>
    unfold runningStep at hrun
    dsimp only at hrun
    split_ifs at hrun with hfree
    obtain ⟨e, he, rfl⟩ := map_eq_some_iff.mp hrun
    have hset := h.setEngine (h.engine.step he) (pages_subset_of_step he)
    refine ServiceInv.begin hset hfree ?_
    intro c' t name structure' ht hs heq
    obtain ⟨structure₁, htarget⟩ := hs
    refine hl name (by rw [heq]; rfl) c' (h.active c' t ht) ?_
    rw [ht, bind_some, htarget]
    rfl
  | engine l =>
    obtain ⟨e, he, rfl⟩ := of_engine hstep
    exact h.setEngine (h.engine.step he) (pages_subset_of_step he)
  | finish c =>
    unfold runningStep at hrun
    dsimp only at hrun
    split at hrun
    · next target hc =>
      obtain ⟨e, he, hrun⟩ := bind_eq_some_iff.mp hrun
      obtain ⟨page, hpage, rfl⟩ := map_eq_some_iff.mp hrun
      have hset := h.setEngine (h.engine.step he) (pages_subset_of_step he)
      split
      · exact hset.compressed hc (mem_of_getLast? hpage)
      · next hnone =>
        obtain rfl : target = none := by simpa using hnone
        exact hset.endTask hc
    · cases hrun
  | openFiles c a b | writeStructure c o | writeTensors c o =>
    obtain ⟨⟨target, phase⟩, hc, hrun⟩ := bind_eq_some_iff.mp hrun
    obtain ⟨⟨name, structure'⟩, htarget, hrun⟩ := bind_eq_some_iff.mp hrun
    obtain rfl : target = some (name, structure') := htarget
    exact h.writeStep hc hl hrun
  | cleanCache =>
    obtain ⟨e, he, rfl⟩ := of_cleanCache hstep
    exact h.setEngine (h.engine.step he) (pages_subset_of_step he)
  | exit =>
    obtain ⟨-, rfl⟩ := of_exit hstep
    exact { h with }

omit [DecidableEq ν] in
theorem initial (h : serviceInit ops fmt maxBytes s) : ServiceInv ops fmt s := by
  obtain ⟨hengine, htasks, -, hanswered, -⟩ := h
  refine ⟨CompressInv.initial hengine, ?_, ?_, ?_, ?_, ?_, ?_⟩
  all_goals simp [htasks, hanswered]

end ServiceInv

/-! ### What is on disk at the end -/

theorem synced_of_load (hload : l.IsLoad) (h : CompressInv ops fmt e)
    (hsync : e.store.cache.Synced (hnswKind fmt))
    (hstep : compressStep ops fmt maxBytes e l = some e') :
    e'.store.cache.Synced (hnswKind fmt) := by
  cases l with
  | readerGet n k =>
    obtain ⟨st, hcache, rfl⟩ := map_eq_some_iff.mp hstep
    obtain ⟨⟨o, c⟩, hget, rfl⟩ := map_eq_some_iff.mp hcache
    exact hsync.get h.store.cache hget
  | readerRelease x =>
    unfold compressStep at hstep
    dsimp only at hstep
    split at hstep
    · obtain ⟨st, hcache, rfl⟩ := map_eq_some_iff.mp hstep
      unfold cacheStep at hcache
      dsimp only at hcache
      split at hcache
      · obtain ⟨c, hrel, rfl⟩ := map_eq_some_iff.mp hcache
        cases hrel
        exact hsync
      · cases hcache
    · cases hstep
  | start | route | get | compressTensor | release | getIndex | insert | releaseIndex | finish
  | clearCache => exact hload.elim

theorem file_of_load {c : Cache HnswIndex φ} {id : ℤ} {base : List Double}
    (h : (c.load (hnswKind fmt) k).retrieve ops.toQuantizer id = some base) :
    ∃ file index, c.files k = some file ∧ fmt.deserialize file = some index ∧
      index.retrieve ops.toQuantizer id = some base := by
  unfold Cache.load at h
  cases hfile : (c.files k).bind (hnswKind fmt).deserialize with
  | none =>
    -- a new index is empty
    rw [hfile] at h
    cases h
  | some index =>
    obtain ⟨file, hget, hdeser⟩ := bind_eq_some_iff.mp hfile
    rw [hfile] at h
    exact ⟨file, index, hget, hdeser, h⟩

/-- A process that starts over the files of another one loads what is in them. -/
theorem get_after_restart {st : IndexStore φ} {files : IndexKey → Option φ} (hinit : cacheInit st)
    (hfiles : st.cache.files = files) {file : φ} {index : HnswIndex} (hfile : files k = some file)
    (hdeser : fmt.deserialize file = some index) {o : ℕ} {cache : Cache HnswIndex φ}
    (hget : st.cache.get (hnswKind fmt) maxBytes k = some (o, cache)) :
    cache.heap o = index := by
  have hinv : CacheInv (hnswKind fmt) st.cache _ := CacheInv.initial hinit
  rw [(hinv.get hget).2.2, Cache.content, hinit.2.1]
  rw [Cache.load, hfiles, hfile, bind_some]
  exact congrArg (Option.getD · _) hdeser

/-- **Saved models survive**, if every write succeeds, no two saves of one name run at a time,
and the cache is cleared after the last of the saves and dry runs: the service may then go on
to load models, and exit. For each name the files of the model that was last answered with
success are complete, each of its packets finds its base in an index file, and a service that
starts over these files gets it from there. -/
theorem saved_models_survive {s₀ s s₁ s₂ s₃ : ServiceState ν σ δ φ}
    {ls ls' : List (ServiceLabel ν σ)} (h₀ : (serviceSystem ops fmt maxBytes).init s₀)
    (hrun : ((serviceSystem ops fmt maxBytes).guard Orderly).Run s₀ ls s) (hidle : s.Idle)
    (hclean : (serviceSystem ops fmt maxBytes).step s .cleanCache s₁)
    (hloads : ((serviceSystem ops fmt maxBytes).guard fun _ l => l.IsLoad).Run s₁ ls' s₂)
    (hexit : (serviceSystem ops fmt maxBytes).step s₂ .exit s₃) :
    ∀ name structure' page, s₃.answered name = some (structure', page) →
      Durable ops fmt s₃ name structure' page ∧
      ∀ st : IndexStore φ, cacheInit st →
        st.cache.files = s₃.engine.store.cache.files → ∀ e ∈ page, ∀ o cache,
          st.cache.get (hnswKind fmt) maxBytes e.packet.key = some (o, cache) →
            (cache.heap o).retrieve ops.toQuantizer e.packet.baseTensorId = some e.base := by
  have hinv : ServiceInv ops fmt s :=
    hrun.invariant (ServiceInv.initial h₀) fun _ _ _ h hstep => h.step hstep.2 hstep.1
  -- nothing is in use when the cache is cleared
  have hcleared : ServiceInv ops fmt s₁ ∧ s₁.engine.store.cache.Synced (hnswKind fmt) := by
    refine ⟨hinv.step (l := .cleanCache) trivial hclean, ?_⟩
    obtain ⟨e, he, rfl⟩ := of_cleanCache hclean
    obtain ⟨st, hcache, rfl⟩ := map_eq_some_iff.mp
      (show (cacheStep (hnswKind fmt) maxBytes s.engine.store .clearCache).map
        (fun st => { s.engine with store := st }) = some e from he)
    cases hcache
    refine hinv.engine.store.cache.synced_clearCache ?_
    rw [hidle.2]
    simp
  -- and loads insert nothing
  obtain ⟨hinv₂, hsync₂⟩ : ServiceInv ops fmt s₂ ∧
      s₂.engine.store.cache.Synced (hnswKind fmt) := by
    refine hloads.invariant (I := fun t => ServiceInv ops fmt t ∧
      t.engine.store.cache.Synced (hnswKind fmt)) hcleared ?_
    rintro t l t' ⟨ht, hsync⟩ ⟨hstep, hload⟩
    cases l with
    | engine l =>
      obtain ⟨e, he, rfl⟩ := of_engine hstep
      exact ⟨ht.setEngine (ht.engine.step he) (pages_subset_of_step he),
        synced_of_load hload ht.engine hsync he⟩
    | begin | finish | openFiles | writeStructure | writeTensors | cleanCache | exit =>
      exact hload.elim
  obtain ⟨hidle₂, rfl⟩ := of_exit hexit
  intro name structure' page hanswered
  have hfiles := hinv₂.files name structure' page hanswered fun c t ht _ => by
    have hactive := hinv₂.active c t ht
    rw [hidle₂.1] at hactive
    cases hactive
  have hindex : ∀ e ∈ page, ∃ file index,
      s₂.engine.store.cache.files e.packet.key = some file ∧
        fmt.deserialize file = some index ∧
        index.retrieve ops.toQuantizer e.packet.baseTensorId = some e.base := by
    intro e he
    obtain ⟨-, hbase, -⟩ :=
      hinv₂.engine.pages page (hinv₂.answered name structure' page hanswered) e he
    refine file_of_load ?_
    rw [hsync₂]
    exact hbase
  refine ⟨⟨hfiles.1, hfiles.2, hindex⟩, ?_⟩
  intro st hinit hsame e he o cache hget
  obtain ⟨file, index, hfile, hdeser, hbase⟩ := hindex e he
  rw [get_after_restart hinit hsame hfile hdeser hget]
  exact hbase

end Service

instance {ν σ δ φ : Type} [DecidableEq ν] (s : ServiceState ν σ δ φ) (l : ServiceLabel ν σ) :
    Decidable (Orderly s l) :=
  match l with
  | .begin _ target _ => inferInstanceAs (Decidable (∀ name ∈ target.map Prod.fst, _))
  | .openFiles _ _ _ => inferInstanceAs (Decidable (_ ∧ _))
  | .writeStructure _ outcome | .writeTensors _ outcome =>
    inferInstanceAs (Decidable (outcome = .written))
  | .engine _ | .finish _ | .cleanCache | .exit => inferInstanceAs (Decidable True)

namespace ServiceExample

open CompressExample

def init : ServiceState ℕ ℕ (List Double) HnswIndex where
  engine := CompressExample.init
  tasks := fun _ => none
  active := []
  structureFiles := fun _ => none
  tensorFiles := fun _ => none
  answered := fun _ => none
  running := true

/-- A save of a model with one tensor, up to its writes. -/
def compression : List (ServiceLabel ℕ ℕ) :=
  [.begin 0 (some (7, 42)) [tensor 1 2]] ++ (body 0 0 (-1)).map .engine ++
    [.engine (.getIndex 0 ⟨2, 0⟩), .engine (.insert 0 (pending 0 1 2)),
      .engine (.releaseIndex 0), .finish 0]

def save : List (ServiceLabel ℕ ℕ) :=
  compression ++ [.openFiles 0 true true, .writeStructure 0 .written, .writeTensors 0 .written]

/-- The tensor file cannot be opened. -/
def failedSave : List (ServiceLabel ℕ ℕ) := compression ++ [.openFiles 0 true false]

/-- A model was answered with success and is not there after the run. -/
def Lost (labels : List (ServiceLabel ℕ ℕ)) : Prop :=
  ∃ s structure' page, (serviceSystem ops format 3).Run init labels s ∧ s.running = false ∧
    s.answered 7 = some (structure', page) ∧ ¬Durable ops format s 7 structure' page

theorem init_ok : (serviceSystem ops format 3).init init :=
  ⟨⟨⟨rfl, rfl, rfl, rfl, rfl, rfl, rfl, rfl⟩, rfl, rfl⟩, rfl, rfl, rfl, rfl⟩

end ServiceExample

open ServiceExample CompressExample in
/-- The service saves a model, clears the cache and exits. -/
theorem saved_models_survive_cleared :
    ∃ s page, s.answered 7 = some (42, page) ∧ page.length = 1 ∧
      Durable ops format s 7 42 page := by
  obtain ⟨s, hrun, hidle, hs⟩ : ∃ s,
      ((serviceSystem ops format 3).guard Orderly).Run ServiceExample.init save s ∧
        s.Idle ∧ (((serviceStep ops format 3 s .cleanCache).bind fun s₁ =>
          serviceStep ops format 3 s₁ .exit).any fun s₃ =>
            (s₃.answered 7).any fun m => m.1 == 42 && m.2.length == 1) = true :=
    System.exists_guard_run_of_exec (by decide +kernel) fun _ _ hs => hs
  obtain ⟨s₃, hsteps, hs⟩ := (Option.any_eq_true _ _).mp hs
  obtain ⟨s₁, hclean, hexit⟩ := bind_eq_some_iff.mp hsteps
  obtain ⟨⟨structure', page⟩, hanswered, hs⟩ := (Option.any_eq_true _ _).mp hs
  rw [Bool.and_eq_true, beq_iff_eq, beq_iff_eq] at hs
  obtain ⟨rfl, hlen⟩ := hs
  exact ⟨s₃, page, hanswered, hlen,
    (saved_models_survive init_ok hrun hidle hclean .nil hexit 7 _ page hanswered).1⟩

open ServiceExample CompressExample in
/-- The index of a model that was saved is lost at the exit, without any failure; and a model
whose tensor file could not be opened was saved with success. -/
theorem saved_model_lost :
    Lost (save ++ [.exit]) ∧ Lost (failedSave ++ [.cleanCache, .exit]) := by
  constructor
  · obtain ⟨s, hrun, hexited, hs⟩ : ∃ s,
        (serviceSystem ops format 3).Run ServiceExample.init (save ++ [.exit]) s ∧
          s.running = false ∧ ((s.answered 7).any fun m => m.2.any fun e =>
            (s.engine.store.cache.files e.packet.key).isNone) = true :=
      System.exists_run_of_exec (by decide +kernel) fun _ _ hs => hs
    obtain ⟨⟨structure', page⟩, hanswered, hs⟩ := (Option.any_eq_true _ _).mp hs
    obtain ⟨e, he, hnone⟩ := List.any_eq_true.mp hs
    refine ⟨s, structure', page, hrun, hexited, hanswered, fun hdurable => ?_⟩
    obtain ⟨file, index, hfile, -⟩ := hdurable.index_file e he
    rw [hfile] at hnone
    cases hnone
  · obtain ⟨s, hrun, hexited, hs, hnone⟩ : ∃ s,
        (serviceSystem ops format 3).Run ServiceExample.init
            (failedSave ++ [.cleanCache, .exit]) s ∧
          s.running = false ∧ (s.answered 7).isSome ∧ (s.tensorFiles 7).isNone :=
      System.exists_run_of_exec (by decide +kernel) fun _ _ hs => hs
    obtain ⟨⟨structure', page⟩, hanswered⟩ := Option.isSome_iff_exists.mp hs
    refine ⟨s, structure', page, hrun, hexited, hanswered, fun hdurable => ?_⟩
    rw [hdurable.tensor_file] at hnone
    cases hnone

end NeurDB.NeurStore
