import AgenticLocalApp.Execution.Executor

/-!
# The working spaces of the sessions

Every session has one folder that its commands may write into: one that is generated under the
root, or one that the user owns and that the session is bound to.  When a session is released the
policy is applied to the folder generated for it.
-/

namespace AgenticLocalApp

/-- A folder, by the names that lead to it from the root of the file system. -/
abbrev FolderPath := List String

inductive ScratchPolicy where
  | delete | keep | archive
  deriving DecidableEq, Repr

structure ScratchSection where
  enabled : Bool := true
  root : FolderPath
  policy : ScratchPolicy := .delete
  keepOnFailure : Bool := true

/-- `_leaf`: the session as a plain directory name; on POSIX such a name is its own
`Path(name).name`. -/
def leaf (sessionId : String) : Except Exc String :=
  let name := strip sessionId
  if name = "" ∨ name = "." ∨ name = ".." ∨ '/' ∈ name.toList ∨ '\\' ∈ name.toList then
    .error (.valueError s!"session_id must be a plain directory name, got {sessionId}")
  else .ok name

/-! ## Dictionaries of folders -/

/-- The folders of some sessions. -/
abbrev Folders := List (String × FolderPath)

namespace Folders

def get (d : Folders) (sid : String) : Option FolderPath := d.lookup sid

/-- `pop`. -/
def without (d : Folders) (sid : String) : Folders := d.filter fun e => e.1 ≠ sid

def set (d : Folders) (sid : String) (folder : FolderPath) : Folders := (sid, folder) :: d.without sid

end Folders

structure ScratchManager where
  created : Folders := []
  bound : Folders := []

/-! ## What the file system answers -/

/-- `_make_directory`: whether the folder was not there and is made, and whether an `OSError` is
raised, be it by the making or by the narrowing of a folder that is there by then. -/
structure MakeDirectory where
  made : Bool := true
  refused : Bool := false
  deriving DecidableEq, Repr

/-- What the file system does when a folder is released. -/
structure ReleaseAnswers where
  /-- `rmtree` or `move` raises, having begun. -/
  refused : Bool := false
  destinationExists : Bool := false
  /-- The folder of the archives cannot be made. -/
  archiveRootRefused : Bool := false

/-- Why a folder cannot be used as a working space. -/
inductive WorkingSpaceInvalid where
  | blank | notAbsolute | doesNotExist | notADirectory | unreadable
  deriving DecidableEq, Repr

/-! ## Outcomes -/

inductive ScratchAction where
  | none | kept | deleted | archived | failed
  deriving DecidableEq, Repr

inductive ScratchReason where
  | disabled | neverCreated | boundWorkingSpace | keepOnFailure | policyDelete | policyKeep
  | policyArchive
  deriving DecidableEq, Repr

structure ScratchOutcome where
  sessionId : String
  action : ScratchAction
  reason : ScratchReason
  path : Option FolderPath := none
  deriving DecidableEq, Repr

/-- A folder that is being deleted or moved away, for the session that is released. -/
structure FolderRemoval where
  sessionId : String
  folder : FolderPath
  deriving DecidableEq, Repr

namespace ScratchManager

variable (config : ScratchSection) (m : ScratchManager)

/-! ## The folder -/

/-- `path_for`. -/
def pathFor (sid : String) (answer : MakeDirectory) :
    Except Exc (Option FolderPath) × ScratchManager :=
  if ¬ config.enabled then (.ok none, m)
  else
    match m.bound.get sid with
    | some folder => (.ok (some folder), m)
    | none =>
      match m.created.get sid with
      | some folder => (.ok (some folder), m)
      | none =>
        match leaf sid with
        | .error e => (.error e, m)
        | .ok name =>
          let folder := config.root ++ [name]
          if answer.refused then (.error (.runtimeError "OSError"), m)
          else (.ok (some folder), { m with created := m.created.set sid folder })

/-- `bind`, of a working space that `validate_working_space` accepts or refuses. -/
def bind (sid : String) (workingSpace : Option (Except WorkingSpaceInvalid FolderPath)) :
    Except WorkingSpaceInvalid (Option FolderPath) × ScratchManager :=
  match workingSpace with
  | none => (.ok none, { m with bound := m.bound.without sid })
  | some (.error reason) => (.error reason, m)
  | some (.ok folder) =>
    if ¬ config.enabled then (.ok none, m)
    else (.ok (some folder), { m with bound := m.bound.set sid folder })

/-- `environment`: the folder twice, and the session. -/
def environment (sid : String) (answer : MakeDirectory) :
    Except Exc (List (String × (FolderPath ⊕ String))) × ScratchManager :=
  let (result, m) := m.pathFor config sid answer
  (result.map fun
    | none => []
    | some folder => [("AGENTIC_SCRATCH_DIR", .inl folder), ("AGENTIC_WORKING_SPACE", .inl folder),
        ("AGENTIC_SESSION_ID", .inr sid)], m)

/-! ## The end of a session -/

/-- `_delete`. -/
def delete (sid : String) (folder : FolderPath) (answers : ReleaseAnswers) :
    ScratchOutcome × List FolderRemoval :=
  (⟨sid, if answers.refused then .failed else .deleted, .policyDelete, folder⟩, [⟨sid, folder⟩])

/-- `_archive`: a destination that is there already is an error, and so is one that cannot be made. -/
def archive (sid : String) (folder : FolderPath) (answers : ReleaseAnswers) :
    ScratchOutcome × List FolderRemoval :=
  if answers.destinationExists ∨ answers.archiveRootRefused then
    (⟨sid, .failed, .policyArchive, folder⟩, [])
  else
    (⟨sid, if answers.refused then .failed else .archived, .policyArchive, folder⟩, [⟨sid, folder⟩])

/-- The manager after it has forgotten a session. -/
def forget (sid : String) : ScratchManager := ⟨m.created.without sid, m.bound.without sid⟩

/-- `release`. -/
def release (sid : String) (failed : Bool) (answers : ReleaseAnswers) :
    ScratchOutcome × ScratchManager × List FolderRemoval :=
  if ¬ config.enabled then (⟨sid, .none, .disabled, none⟩, m, [])
  else
    match m.created.get sid, m.bound.get sid with
    | none, none => (⟨sid, .none, .neverCreated, none⟩, m.forget sid, [])
    | none, some folder => (⟨sid, .none, .boundWorkingSpace, folder⟩, m.forget sid, [])
    | some folder, _ =>
      if failed ∧ config.keepOnFailure then (⟨sid, .kept, .keepOnFailure, folder⟩, m.forget sid, [])
      else
        match config.policy with
        | .keep => (⟨sid, .kept, .policyKeep, folder⟩, m.forget sid, [])
        | .archive =>
          let ended := archive sid folder answers
          (ended.1, m.forget sid, ended.2)
        | .delete =>
          let ended := delete sid folder answers
          (ended.1, m.forget sid, ended.2)

/-- The sessions that are tracked, in order, each once. -/
def sessions : List String :=
  ((m.created.map Prod.fst ++ m.bound.map Prod.fst).dedup).insertionSort (· ≤ ·)

end ScratchManager

/-! ## Histories -/

/-- A folder that was being removed, when it was: what had been generated by then, for which
session, and what was bound. -/
structure RemovalContext where
  removal : FolderRemoval
  generated : Folders
  bound : Folders
  deriving DecidableEq

/-- A manager, every folder that it has ever made itself, and the folders that it removed. -/
structure ScratchHistory where
  manager : ScratchManager := {}
  generated : Folders := []
  removals : List RemovalContext := []

inductive ScratchCall where
  | pathFor (sid : String) (answer : MakeDirectory)
  | environment (sid : String) (answer : MakeDirectory)
  | bind (sid : String) (workingSpace : Option (Except WorkingSpaceInvalid FolderPath))
  | release (sid : String) (failed : Bool) (answers : ReleaseAnswers)
  | releaseAll (failed : Bool) (answers : String → ReleaseAnswers)

namespace ScratchHistory

open ScratchManager

variable (config : ScratchSection) (h : ScratchHistory)

/-- The folder that the session would have generated for it. -/
def wanted (sid : String) : Option FolderPath :=
  if config.enabled ∧ h.manager.bound.get sid = none ∧ h.manager.created.get sid = none then
    match leaf sid with
    | .ok name => some (config.root ++ [name])
    | .error _ => none
  else none

/-- A call that may make the folder of a session. -/
def locate (sid : String) (answer : MakeDirectory) : ScratchHistory :=
  { h with
    manager := (h.manager.pathFor config sid answer).2
    generated :=
      match h.wanted config sid with
      | some folder => if answer.made then (sid, folder) :: h.generated else h.generated
      | none => h.generated }

def releaseOne (sid : String) (failed : Bool) (answers : ReleaseAnswers) : ScratchHistory :=
  let (_, manager, removals) := h.manager.release config sid failed answers
  { h with
    manager := manager
    removals := h.removals ++ removals.map fun r => ⟨r, h.generated, h.manager.bound⟩ }

/-- `release_all`. -/
def releaseEach (failed : Bool) (answers : String → ReleaseAnswers) (h : ScratchHistory) :
    List String → ScratchHistory
  | [] => h
  | sid :: rest => releaseEach failed answers (h.releaseOne config sid failed (answers sid)) rest

def step : ScratchCall → ScratchHistory
  | .pathFor sid answer => h.locate config sid answer
  | .environment sid answer => h.locate config sid answer
  | .bind sid workingSpace => { h with manager := (h.manager.bind config sid workingSpace).2 }
  | .release sid failed answers => h.releaseOne config sid failed answers
  | .releaseAll failed answers => releaseEach config failed answers h h.manager.sessions

def run (calls : List ScratchCall) : ScratchHistory := calls.foldl (step config) h

/-! ## What may be removed -/

end ScratchHistory

/-- The folder was generated for the session that is released, under the root, and no folder that
a session is bound to is it or lies in it. -/
structure RemovalContext.Proper (config : ScratchSection) (r : RemovalContext) : Prop where
  own : (r.removal.sessionId, r.removal.folder) ∈ r.generated
  underRoot : ∃ name, r.removal.folder = config.root ++ [name]
  unbound : ∀ e ∈ r.bound, ¬ r.removal.folder <+: e.2

namespace ScratchHistory

open ScratchManager

variable (config : ScratchSection) (h : ScratchHistory)

/-- The policy does not keep the folder of a session that ends so. -/
def Removes (failed : Bool) : Prop :=
  config.policy ≠ .keep ∧ ¬ (failed = true ∧ config.keepOnFailure = true)

/-- A folder that is there already was generated for the same session. -/
def AdoptsItsOwn (sid : String) (answer : MakeDirectory) : Prop :=
  ∀ folder ∈ h.wanted config sid, answer.made = false → (sid, folder) ∈ h.generated

/-- No session is bound to the folder of the session, nor to a folder in it, if it is removed. -/
def ReleasesUnbound (sid : String) (failed : Bool) : Prop :=
  ∀ folder ∈ h.manager.created.get sid, Removes config failed →
    ∀ e ∈ h.manager.bound, ¬ folder <+: e.2

def ReleasesEachUnbound (failed : Bool) (answers : String → ReleaseAnswers) (h : ScratchHistory) :
    List String → Prop
  | [] => True
  | sid :: rest =>
    h.ReleasesUnbound config sid failed ∧
      ReleasesEachUnbound failed answers (h.releaseOne config sid failed (answers sid)) rest

def Careful : ScratchCall → Prop
  | .pathFor sid answer => h.AdoptsItsOwn config sid answer
  | .environment sid answer => h.AdoptsItsOwn config sid answer
  | .bind _ _ => True
  | .release sid failed _ => h.ReleasesUnbound config sid failed
  | .releaseAll failed answers => ReleasesEachUnbound config failed answers h h.manager.sessions

/-- Every step of the run is careful. -/
def CarefulRun (h : ScratchHistory) : List ScratchCall → Prop
  | [] => True
  | call :: rest => h.Careful config call ∧ CarefulRun (h.step config call) rest

/-- What is tracked was generated under the root, and what was removed was removed properly. -/
structure Sound (h : ScratchHistory) : Prop where
  tracked : ∀ sid folder, h.manager.created.get sid = some folder →
    (sid, folder) ∈ h.generated ∧ ∃ name, folder = config.root ++ [name]
  proper : ∀ r ∈ h.removals, r.Proper config

end ScratchHistory

namespace Folders

variable {d : Folders} {sid s : String} {folder : FolderPath}

theorem get_without (d : Folders) (sid s : String) :
    (d.without sid).get s = if s = sid then none else d.get s := by
  unfold get without
  induction d with
  | nil => simp
  | cons e d ih =>
    obtain ⟨k, folder⟩ := e
    by_cases hk : k = sid
    · subst hk
      rw [List.filter_cons_of_neg (by simp), ih]
      by_cases hs : s = k
      · simp [hs]
      · simp [hs, List.lookup_cons, beq_eq_false_iff_ne.2 hs]
    · rw [List.filter_cons_of_pos (by simp [hk]), List.lookup_cons, List.lookup_cons, ih]
      by_cases hs : s = k
      · subst hs
        simp [hk]
      · simp [beq_eq_false_iff_ne.2 hs]

theorem get_set (d : Folders) (sid s : String) (folder : FolderPath) :
    (d.set sid folder).get s = if s = sid then some folder else d.get s := by
  unfold set get
  rw [List.lookup_cons]
  by_cases hs : s = sid
  · simp [hs]
  · rw [beq_eq_false_iff_ne.2 hs, if_neg hs]
    have hwithout := get_without d sid s
    rw [if_neg hs] at hwithout
    exact hwithout

end Folders

namespace ScratchHistory

open ScratchManager

variable {config : ScratchSection} {h : ScratchHistory}

theorem created_pathFor (m : ScratchManager) (sid : String) (answer : MakeDirectory) (s : String)
    (folder : FolderPath) (hs : (m.pathFor config sid answer).2.created.get s = some folder) :
    m.created.get s = some folder ∨
      s = sid ∧ (⟨m, [], []⟩ : ScratchHistory).wanted config sid = some folder := by
  unfold pathFor at hs
  unfold wanted
  split at hs
  · exact .inl hs
  · rename_i henabled
    split at hs
    · exact .inl hs
    · rename_i hbound
      split at hs
      · exact .inl hs
      · rename_i hcreated
        split at hs
        · exact .inl hs
        · rename_i name hleaf
          dsimp only at hs
          split at hs
          · exact .inl hs
          · rw [Folders.get_set] at hs
            split at hs
            · rename_i he
              refine .inr ⟨he, ?_⟩
              rw [if_pos ⟨by simpa using henabled, hbound, hcreated⟩, hleaf]
              exact hs
            · exact .inl hs

theorem Sound.locate (hs : Sound config h) {sid : String} {answer : MakeDirectory}
    (hown : h.AdoptsItsOwn config sid answer) : Sound config (h.locate config sid answer) where
  tracked s folder hget := by
    have hgrows : ∀ e ∈ h.generated, e ∈ (h.locate config sid answer).generated := by
      intro e he
      show e ∈ (match h.wanted config sid with
        | some folder => if answer.made then (sid, folder) :: h.generated else h.generated
        | none => h.generated)
      split
      · split
        · exact List.mem_cons_of_mem _ he
        · exact he
      · exact he
    rcases created_pathFor h.manager sid answer s folder hget with hold | ⟨rfl, hwanted⟩
    · obtain ⟨hgen, hroot⟩ := hs.tracked s folder hold
      exact ⟨hgrows _ hgen, hroot⟩
    · have hw : h.wanted config s = some folder := hwanted
      constructor
      · show (s, folder) ∈ (match h.wanted config s with
          | some folder => if answer.made then (s, folder) :: h.generated else h.generated
          | none => h.generated)
        rw [hw]
        dsimp only
        split
        · exact List.mem_cons_self
        · rename_i hmade
          exact hown folder hw (by simpa using hmade)
      · unfold wanted at hw
        split at hw
        · split at hw
          · rename_i name _
            exact ⟨name, (Option.some.inj hw).symm⟩
          · cases hw
        · cases hw
  proper := hs.proper

theorem mem_archive {sid : String} {folder : FolderPath} {answers : ReleaseAnswers}
    {r : FolderRemoval} (hr : r ∈ (ScratchManager.archive sid folder answers).2) :
    r = ⟨sid, folder⟩ := by
  unfold ScratchManager.archive at hr
  split at hr
  · cases hr
  · exact List.mem_singleton.1 hr

variable (config) in
/-- What a release does: the session is forgotten, and at most its folder is removed, when the
policy says so. -/
theorem release_spec (m : ScratchManager) (sid : String) (failed : Bool) (answers : ReleaseAnswers) :
    (∀ s folder, (m.release config sid failed answers).2.1.created.get s = some folder →
      m.created.get s = some folder) ∧
    ∀ r ∈ (m.release config sid failed answers).2.2,
      r.sessionId = sid ∧ m.created.get sid = some r.folder ∧ Removes config failed := by
  have hforget : ∀ s folder, (m.forget sid).created.get s = some folder →
      m.created.get s = some folder := by
    intro s folder hget
    rw [show (m.forget sid).created = m.created.without sid from rfl, Folders.get_without] at hget
    split at hget
    · cases hget
    · exact hget
  unfold ScratchManager.release
  split
  · exact ⟨fun _ _ hget => hget, fun r hr => by cases hr⟩
  · cases hcreated : m.created.get sid with
    | none => cases m.bound.get sid <;> exact ⟨hforget, fun r hr => by cases hr⟩
    | some folder =>
      dsimp only
      split
      · exact ⟨hforget, fun r hr => by cases hr⟩
      · rename_i hkept
        cases hpolicy : config.policy with
        | keep => exact ⟨hforget, fun r hr => by cases hr⟩
        | archive =>
          refine ⟨hforget, fun r hr => ?_⟩
          rw [mem_archive hr]
          exact ⟨rfl, rfl, by rw [hpolicy]; decide, hkept⟩
        | delete =>
          refine ⟨hforget, fun r hr => ?_⟩
          rw [List.mem_singleton.1 hr]
          exact ⟨rfl, rfl, by rw [hpolicy]; decide, hkept⟩

theorem Sound.releaseOne (hs : Sound config h) {sid : String} {failed : Bool}
    {answers : ReleaseAnswers} (hunbound : h.ReleasesUnbound config sid failed) :
    Sound config (h.releaseOne config sid failed answers) := by
  obtain ⟨hcreated, hremoved⟩ := release_spec config h.manager sid failed answers
  refine ⟨fun s folder hget => hs.tracked s folder (hcreated s folder hget), fun r hr => ?_⟩
  rcases List.mem_append.1 hr with hr | hr
  · exact hs.proper r hr
  · obtain ⟨removal, hmem, rfl⟩ := List.mem_map.1 hr
    obtain ⟨hsid, hfolder, hremoves⟩ := hremoved removal hmem
    obtain ⟨hgen, hroot⟩ := hs.tracked sid removal.folder hfolder
    exact ⟨by rw [hsid]; exact hgen, hroot, hunbound removal.folder hfolder hremoves⟩

theorem Sound.releaseEach {failed : Bool} {answers : String → ReleaseAnswers} {sids : List String} :
    ∀ {h : ScratchHistory}, Sound config h → ReleasesEachUnbound config failed answers h sids →
      Sound config (releaseEach config failed answers h sids) := by
  induction sids with
  | nil => exact fun hs _ => hs
  | cons sid rest ih => exact fun hs hunbound => ih (hs.releaseOne hunbound.1) hunbound.2

theorem Sound.step (hs : Sound config h) {call : ScratchCall} (hcall : h.Careful config call) :
    Sound config (h.step config call) := by
  cases call with
  | pathFor sid answer => exact hs.locate hcall
  | environment sid answer => exact hs.locate hcall
  | bind sid workingSpace =>
    have hcreated : (h.manager.bind config sid workingSpace).2.created = h.manager.created := by
      unfold ScratchManager.bind
      split
      · rfl
      · rfl
      · split <;> rfl
    refine ⟨fun s folder hget => hs.tracked s folder ?_, hs.proper⟩
    rw [← hcreated]
    exact hget
  | release sid failed answers => exact hs.releaseOne hcall
  | releaseAll failed answers => exact hs.releaseEach hcall

theorem Sound.run {calls : List ScratchCall} :
    ∀ {h : ScratchHistory}, Sound config h → CarefulRun config h calls →
      Sound config (h.run config calls) := by
  induction calls with
  | nil => exact fun hs _ => hs
  | cons call rest ih => exact fun hs hcalls => ih (hs.step hcalls.1) hcalls.2

theorem sound_initial : Sound config {} where
  tracked _ _ hget := by cases hget
  proper _ hr := by cases hr

end ScratchHistory

/-- Whatever the policy, and however many sessions there are: as long as no folder that was there
before is taken for a session, and no session is bound into a folder that is being released, what
is removed was generated for the session that is released, and nobody is bound to it. -/
theorem removals_proper (config : ScratchSection) (calls : List ScratchCall)
    (h : ScratchHistory.CarefulRun config {} calls) :
    ∀ r ∈ (ScratchHistory.run config {} calls).removals, r.Proper config :=
  (ScratchHistory.sound_initial.run h).proper

/-- One session works in its own folder and another one in a folder of its user. -/
theorem removals_proper_two :
    let config : ScratchSection := { root := ["data", "scratch"] }
    let calls : List ScratchCall := [.pathFor "a" {}, .bind "b" (some (.ok ["home", "b"])),
      .release "a" false {}]
    ∀ r ∈ (ScratchHistory.run config {} calls).removals, r.Proper config := by
  intro config calls
  refine removals_proper config calls ⟨?_, trivial, ?_, trivial⟩
  · intro folder _ hmade
    cases hmade
  · show ∀ folder ∈ some ["data", "scratch", "a"], _
    intro folder hfolder _ e he
    obtain rfl := Option.some.inj hfolder
    have hbound : e ∈ [("b", ["home", "b"])] := he
    rw [List.mem_singleton.1 hbound]
    decide

/-- A session works in the folder that was generated for another one, which is then released. -/
theorem bound_folder_removed :
    let config : ScratchSection := { root := ["data", "scratch"] }
    let calls : List ScratchCall := [.pathFor "a" {},
      .bind "b" (some (.ok ["data", "scratch", "a"])), .release "a" false {}]
    ∃ r ∈ (ScratchHistory.run config {} calls).removals, ¬ r.Proper config := by
  intro config calls
  refine ⟨⟨⟨"a", ["data", "scratch", "a"]⟩, [("a", ["data", "scratch", "a"])],
    [("b", ["data", "scratch", "a"])]⟩, List.mem_singleton_self _, fun h => ?_⟩
  exact h.unbound _ (List.mem_singleton_self _) (List.prefix_refl _)

end AgenticLocalApp
