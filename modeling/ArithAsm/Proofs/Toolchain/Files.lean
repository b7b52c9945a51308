import ArithAsm.Workspace

/-!
# Files of a workspace

A text that is stored is found where its path leads, and no other file changes.  A new directory
comes with new ones above it at most, and changes no file at all.
-/

namespace ArithAsm

namespace Path

variable {home : List String} {path : Path}

theorem climbFrom_append (start first second : List String) :
    climbFrom start (first ++ second) = climbFrom (climbFrom start first) second :=
  List.foldl_append

theorem climbFrom_singleton {start : List String} {name : String} (h : name ≠ "..") :
    climbFrom start [name] = start ++ [name] :=
  if_neg h

theorem climbFrom_of_notMem {start names : List String} (h : ".." ∉ names) :
    climbFrom start names = start ++ names := by
  induction names generalizing start with
  | nil => exact (List.append_nil start).symm
  | cons name rest ih =>
      rw [List.mem_cons, not_or] at h
      rw [← List.singleton_append, climbFrom_append, climbFrom_singleton (Ne.symm h.1), ih h.2,
        List.append_assoc]

/-- Paths with one start are resolved by climbing from one place. -/
theorem exists_resolve_parts (home : List String) (path : Path) :
    ∃ start, ∀ parts, (Path.resolve home { path with parts }).parts = climbFrom start parts := by
  obtain ⟨anchor, -⟩ := path
  cases anchor with
  | here => exact ⟨home, fun _ ↦ rfl⟩
  | root => exact ⟨[], fun _ ↦ rfl⟩
  | doubleRoot => exact ⟨[], fun _ ↦ rfl⟩

theorem resolve_join {name : String} (h : name ≠ "..") :
    ((path.join name).resolve home).parts = (path.resolve home).parts ++ [name] := by
  obtain ⟨start, hstart⟩ := exists_resolve_parts home path
  calc ((path.join name).resolve home).parts
      = climbFrom start (path.parts ++ [name]) := hstart (path.parts ++ [name])
    _ = climbFrom start path.parts ++ [name] := by rw [climbFrom_append, climbFrom_singleton h]
    _ = (path.resolve home).parts ++ [name] := by rw [← hstart path.parts]

/-- Only a path to the name of the null device leads to it. -/
theorem resolve_join_ne_nullDevice {name : String} (hup : name ≠ "..") (hnull : name ≠ "null") :
    ((path.join name).resolve home).parts ≠ Workspace.nullDevice := by
  intro h
  rw [resolve_join hup] at h
  have hlast := congrArg List.getLast? h
  rw [List.getLast?_concat] at hlast
  exact hnull (Option.some_inj.mp hlast)

/-- A path is another one, or lies above it as that one is spelled. -/
inductive AtOrAbove (above : Path) : Path → Prop where
  | self : AtOrAbove above above
  | parent {path : Path} (h : AtOrAbove above path.parent) : AtOrAbove above path

theorem AtOrAbove.isPrefix {above : Path} (h : above.AtOrAbove path) :
    above.anchor = path.anchor ∧ above.parts <+: path.parts := by
  induction h with
  | self => exact ⟨rfl, List.prefix_rfl⟩
  | parent h ih => exact ⟨ih.1, ih.2.trans (List.dropLast_prefix _)⟩

/-- A place that a path leads to or that one above it does. -/
def Passes (home : List String) (path : Path) (place : List String) : Prop :=
  ∃ above : Path, above.AtOrAbove path ∧ place = (above.resolve home).parts

theorem Passes.parent {place : List String} (h : path.parent.Passes home place) :
    path.Passes home place := by
  obtain ⟨above, habove, hplace⟩ := h
  exact ⟨above, .parent habove, hplace⟩

end Path

namespace Workspace

variable {workspace before between after : Workspace} {path : Path} {place other : List String}

/-- The content of the file at a place. -/
def fileAt? (workspace : Workspace) (place : List String) : Option String :=
  match workspace.find? place with
  | some (.file content) => some content
  | _ => none

theorem fileAt?_eq_some_iff {content : String} :
    workspace.fileAt? place = some content ↔ workspace.find? place = some (.file content) := by
  unfold fileAt?
  cases workspace.find? place with
  | none => simp
  | some entry => cases entry <;> simp

/-- Something stands at the place of the null device. -/
theorem ne_nullDevice_of_find?_eq_none (h : workspace.find? place = none) : place ≠ nullDevice := by
  rintro rfl
  unfold find? at h
  split at h <;> simp at h

/-! ## Walks -/

theorem resolve_parts (workspace : Workspace) (path : Path) :
    (path.resolve workspace.home).parts = Path.climbFrom (workspace.origin path) path.parts := by
  unfold Path.resolve origin
  cases path.anchor <;> rfl

/-- Without steps upwards, the places that a path passes are those on the way from the root. -/
theorem prefix_of_passes (h : path.Passes workspace.home place) (hup : ".." ∉ path.parts) :
    place <+: (path.resolve workspace.home).parts := by
  obtain ⟨above, habove, rfl⟩ := h
  obtain ⟨hanchor, rest, hrest⟩ := habove.isPrefix
  have horigin : workspace.origin above = workspace.origin path := by
    unfold origin
    rw [hanchor]
  rw [← hrest, List.mem_append, not_or] at hup
  rw [resolve_parts, resolve_parts, horigin, ← hrest, Path.climbFrom_append,
    Path.climbFrom_of_notMem hup.2]
  exact List.prefix_append _ _

/-- Where a walk arrives is told by the names alone. -/
theorem eq_climbFrom_of_walk {file : String} {here names : List String} {entry : Entry}
    (h : workspace.walk file here names = .ok (place, entry)) :
    place = Path.climbFrom here names := by
  induction names generalizing here with
  | nil =>
      cases h
      rfl
  | cons name rest ih =>
      unfold walk at h
      by_cases hup : name = ".."
      · rw [if_pos hup] at h
        rw [ih h, ← List.singleton_append, Path.climbFrom_append, hup]
        rfl
      · rw [if_neg hup] at h
        have hstep : Path.climbFrom here (name :: rest) = Path.climbFrom (here ++ [name]) rest := by
          rw [← List.singleton_append, Path.climbFrom_append, Path.climbFrom_singleton hup]
        rw [hstep]
        split at h
        · cases h
        · split at h
          · cases h
          · exact ih h
          · split at h
            · rename_i hlast
              obtain rfl := List.isEmpty_iff.mp hlast
              cases h
              rfl
            · cases h

theorem eq_of_target {name : String} {entry : Option Entry}
    (h : workspace.target path name = .ok (place, entry)) :
    place = Path.climbFrom (workspace.origin path) path.parts.dropLast ++ [name] ∧
      entry = workspace.find? place := by
  unfold target at h
  split at h
  · cases h
  · split at h
    · cases h
    · cases h
    · rename_i here hwalk
      split at h
      · cases h
      · cases h
        exact ⟨by rw [eq_climbFrom_of_walk hwalk], rfl⟩

/-! ## New entries -/

@[simp] theorem home_put (entry : Entry) : (workspace.put place entry).home = workspace.home := by
  unfold put
  split <;> rfl

theorem find?_put_of_ne (entry : Entry) (h : other ≠ place) :
    (workspace.put place entry).find? other = workspace.find? other := by
  have hentry : (place = other) = False := eq_false h.symm
  unfold find?
  rw [home_put]
  refine ite_congr rfl (fun _ ↦ rfl) fun _ ↦ ite_congr rfl (fun _ ↦ rfl) fun _ ↦ ?_
  unfold put
  split
  · have hkeys : ((fun old : List String × Entry ↦ decide (old.1 = other)) ∘
        fun old ↦ if old.1 = place then (place, entry) else old) =
        fun old : List String × Entry ↦ decide (old.1 = other) := by
      grind
    rw [List.find?_map, hkeys]
    cases hfind : workspace.entries.find? fun old ↦ old.1 = other with
    | none => rfl
    | some old =>
        have hold : old.1 = other := by simpa using List.find?_some hfind
        simp [hold, h]
  · simp [List.find?_append, hentry]

theorem find?_put_self (entry : Entry) (hnull : place ≠ nullDevice)
    (h : workspace.find? place ≠ some .directory) :
    (workspace.put place entry).find? place = some entry := by
  unfold find? at h ⊢
  rw [home_put]
  split at h
  · exact (h rfl).elim
  · rename_i hhome
    rw [if_neg hhome, if_neg hnull]
    unfold put
    split
    · rename_i hany
      have hkeys : ((fun old : List String × Entry ↦ decide (old.1 = place)) ∘
          fun old ↦ if old.1 = place then (place, entry) else old) =
          fun old : List String × Entry ↦ decide (old.1 = place) := by
        grind
      obtain ⟨old, hold⟩ := Option.isSome_iff_exists.mp (List.find?_isSome.mpr
        (List.any_eq_true.mp hany))
      have hplace : old.1 = place := by simpa using List.find?_some hold
      rw [List.find?_map, hkeys, hold]
      simp [hplace]
    · rename_i hnone
      have hfind : (workspace.entries.find? fun old ↦ old.1 = place) = none :=
        List.find?_eq_none.mpr fun old hold hplace ↦
          hnone (List.any_eq_true.mpr ⟨old, hold, hplace⟩)
      simp [List.find?_append, hfind]

/-- Where the last name of a path is no step upwards, the path leads to the place that it names. -/
theorem eq_resolve_of_target {name : String} {entry : Option Entry}
    (hlast : path.parts.getLast? = some name) (hup : name ≠ "..")
    (h : workspace.target path name = .ok (place, entry)) :
    place = (path.resolve workspace.home).parts ∧ entry = workspace.find? place := by
  obtain ⟨hplace, hentry⟩ := eq_of_target h
  obtain ⟨above, habove⟩ := List.getLast?_eq_some_iff.mp hlast
  refine ⟨?_, hentry⟩
  rw [resolve_parts, hplace, habove, List.dropLast_concat, Path.climbFrom_append,
    Path.climbFrom_singleton hup]

theorem eq_of_store {content : String} (h : workspace.store path content = .ok after) :
    let place := (path.resolve workspace.home).parts
    after = (if place = nullDevice then workspace else workspace.put place (.file content)) ∧
      workspace.find? place ≠ some .directory := by
  unfold store at h
  split at h
  · cases h
  · cases h
  · split at h <;> cases h
  · rename_i name hup hbarrier hlast
    split at h
    · cases h
    · cases h
    · rename_i place entry hdirectory htarget
      cases h
      obtain ⟨rfl, hentry⟩ := eq_resolve_of_target hlast hup htarget
      exact ⟨rfl, fun hfind ↦ hdirectory (hentry.trans hfind)⟩

/-- What can be written has a name. -/
theorem parts_ne_nil_of_store {content : String} (h : workspace.store path content = .ok after) :
    path.parts ≠ [] := by
  intro hempty
  unfold store at h
  rw [hempty] at h
  split at h <;> simp_all

theorem eq_put_of_store {content : String}
    (hnull : (path.resolve workspace.home).parts ≠ nullDevice) (h : workspace.store path content = .ok after) :
    after = workspace.put (path.resolve workspace.home).parts (.file content) ∧
      workspace.find? (path.resolve workspace.home).parts ≠ some .directory := by
  obtain ⟨hafter, hdirectory⟩ := eq_of_store h
  rw [if_neg hnull] at hafter
  exact ⟨hafter, hdirectory⟩

theorem eq_put_of_makeOne (h : workspace.makeOne path = .ok after) :
    after = workspace.put (path.resolve workspace.home).parts .directory ∧
      workspace.find? (path.resolve workspace.home).parts = none := by
  unfold makeOne at h
  split at h
  · cases h
  · cases h
  · split at h <;> cases h
  · rename_i name hup hbarrier hlast
    split at h
    · cases h
    · cases h
    · rename_i place htarget
      cases h
      obtain ⟨rfl, hentry⟩ := eq_resolve_of_target hlast hup htarget
      exact ⟨rfl, hentry.symm⟩

/-! ## New directories -/

/-- Seen from the same directory, nothing differs but for new directories at some places. -/
structure Grows (opened : List String → Prop) (before after : Workspace) : Prop where
  home : after.home = before.home
  places : ∀ place, after.find? place ≠ before.find? place →
    before.find? place = none ∧ after.find? place = some .directory ∧ opened place

namespace Grows

variable {opened : List String → Prop}

theorem refl (workspace : Workspace) : Grows opened workspace workspace :=
  ⟨rfl, fun _ h ↦ (h rfl).elim⟩

theorem trans (hf : Grows opened before between) (hs : Grows opened between after) :
    Grows opened before after := by
  refine ⟨hs.home.trans hf.home, fun place h ↦ ?_⟩
  by_cases hsecond : after.find? place = between.find? place
  · rw [hsecond] at h ⊢
    exact hf.places place h
  · obtain ⟨hnone, hdirectory, hopened⟩ := hs.places place hsecond
    -- What is new in the second step was not made in the first one.
    have hfirst : between.find? place = before.find? place := by
      refine Classical.byContradiction fun hfirst ↦ ?_
      rw [(hf.places place hfirst).2.1] at hnone
      cases hnone
    exact ⟨hfirst ▸ hnone, hdirectory, hopened⟩

theorem mono {wider : List String → Prop} (h : Grows opened before after)
    (hwider : ∀ place, opened place → wider place) : Grows wider before after := by
  refine ⟨h.home, fun place hplace ↦ ?_⟩
  obtain ⟨hnone, hdirectory, hopened⟩ := h.places place hplace
  exact ⟨hnone, hdirectory, hwider place hopened⟩

theorem fileAt?_eq (h : Grows opened before after) (place : List String) :
    after.fileAt? place = before.fileAt? place := by
  unfold fileAt?
  by_cases hplace : after.find? place = before.find? place
  · rw [hplace]
  · obtain ⟨hnone, hdirectory, -⟩ := h.places place hplace
    rw [hnone, hdirectory]

theorem makeOne (h : workspace.makeOne path = .ok after) :
    Grows (path.Passes workspace.home) workspace after := by
  obtain ⟨rfl, hnone⟩ := eq_put_of_makeOne h
  refine ⟨home_put .directory, fun place hplace ↦ ?_⟩
  by_cases hself : place = (path.resolve workspace.home).parts
  · subst hself
    have hnull := ne_nullDevice_of_find?_eq_none hnone
    exact ⟨hnone, find?_put_self .directory hnull (by simp [hnone]), path, .self, rfl⟩
  · exact (hplace (find?_put_of_ne .directory hself)).elim

theorem ensureOne (workspace : Workspace) (path : Path) :
    Grows (path.Passes workspace.home) workspace (workspace.ensureOne path).1 := by
  unfold Workspace.ensureOne
  split
  · rename_i made hmade
    exact makeOne hmade
  · exact refl workspace

theorem ensureParts (workspace : Workspace) (anchor : Anchor) (names : List String) :
    Grows (Path.Passes workspace.home { anchor, parts := names.reverse }) workspace
      (workspace.ensureParts anchor names).1 := by
  induction names with
  | nil => exact ensureOne workspace _
  | cons name above ih =>
      have hparent : Path.parent { anchor, parts := (name :: above).reverse } =
          { anchor, parts := above.reverse } := by
        simp [Path.parent]
      have hwider : ∀ place, Path.Passes workspace.home { anchor, parts := above.reverse } place →
          Path.Passes workspace.home { anchor, parts := (name :: above).reverse } place := by
        intro place hplace
        rw [← hparent] at hplace
        exact hplace.parent
      unfold Workspace.ensureParts
      dsimp only
      split
      · split
        · split
          · rename_i made hmade
            rw [hmade] at ih
            have hlast := ensureOne made { anchor, parts := (name :: above).reverse }
            rw [ih.home] at hlast
            exact (ih.mono hwider).trans hlast
          · rename_i made fault hmade
            rw [hmade] at ih
            exact ih.mono hwider
        · exact ensureOne workspace _
      · rename_i made hmade
        exact makeOne hmade

theorem ensure (workspace : Workspace) (path : Path) :
    Grows (path.Passes workspace.home) workspace (workspace.ensure path).1 := by
  have h := ensureParts workspace path.anchor path.parts.reverse
  rwa [List.reverse_reverse] at h

end Grows

/-! ## Workspaces with the same files -/

/-- Seen from the same directory, all files are the same but those at some places. -/
structure Keeps (spent : List String → Prop) (before after : Workspace) : Prop where
  home : after.home = before.home
  files : ∀ place, ¬ spent place → after.fileAt? place = before.fileAt? place

namespace Keeps

variable {spent : List String → Prop}

theorem refl (workspace : Workspace) : Keeps spent workspace workspace :=
  ⟨rfl, fun _ _ ↦ rfl⟩

theorem trans (hf : Keeps spent before between) (hs : Keeps spent between after) :
    Keeps spent before after :=
  ⟨hs.home.trans hf.home, fun place h ↦ (hs.files place h).trans (hf.files place h)⟩

theorem mono {wider : List String → Prop} (h : Keeps spent before after)
    (hwider : ∀ place, spent place → wider place) : Keeps wider before after :=
  ⟨h.home, fun place hspent ↦ h.files place fun h ↦ hspent (hwider place h)⟩

theorem spent_of_ne (h : Keeps spent before after)
    (hplace : after.fileAt? place ≠ before.fileAt? place) : spent place :=
  Classical.byContradiction fun hspent ↦ hplace (h.files place hspent)

theorem put (entry : Entry) : Keeps (· = place) workspace (workspace.put place entry) := by
  refine ⟨home_put entry, fun other hother ↦ ?_⟩
  unfold fileAt?
  rw [find?_put_of_ne entry hother]

theorem store {content : String} (h : workspace.store path content = .ok after) :
    Keeps (· = (path.resolve workspace.home).parts) workspace after := by
  obtain ⟨rfl, -⟩ := eq_of_store h
  split
  · exact refl workspace
  · exact put (.file content)

end Keeps

/-- A text that is stored is kept, but for the null device. -/
theorem fileAt?_of_store {content : String}
    (hnull : (path.resolve workspace.home).parts ≠ nullDevice) (h : workspace.store path content = .ok after) :
    after.fileAt? (path.resolve workspace.home).parts = some content := by
  obtain ⟨rfl, hdirectory⟩ := eq_put_of_store hnull h
  exact fileAt?_eq_some_iff.mpr (find?_put_self _ hnull hdirectory)

end Workspace

end ArithAsm
