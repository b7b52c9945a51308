import ArithAsm.Proofs.Toolchain.Files

/-!
# What stands in the way of a file

A text cannot be stored where a name on the way stands for nothing or for a file, where a name or
the whole path is too long, where the path leads to a directory, and where the place is barred.
Everywhere else it is stored.
-/

namespace ArithAsm

/-- Why nothing can be stored under a path. -/
inductive Obstacle where
  | missingParent
  | fileAsParent
  | directory
  | tooLong
  /-- The system refuses for a reason of its own. -/
  | barred (fault : SystemFault)
deriving DecidableEq

/-- What the system says of a path. -/
def Obstacle.fault (path : String) : Obstacle → SystemFault
  | missingParent => .missing path
  | fileAsParent => .notDirectory path
  | directory => .isDirectory path
  | tooLong => .tooLong path
  | barred fault => fault

namespace Workspace

/-- Names that lead from one directory to another. -/
inductive Leads (workspace : Workspace) : List String → List String → List String → Prop where
  | here (place : List String) : Leads workspace place [] place
  | up {start names place : List String} (h : Leads workspace start.dropLast names place) :
      Leads workspace start (".." :: names) place
  | down {start names place : List String} {name : String} (hname : name ≠ "..")
      (hshort : name.utf8ByteSize ≤ maxNameBytes)
      (hfind : workspace.find? (start ++ [name]) = some .directory)
      (h : Leads workspace (start ++ [name]) names place) :
      Leads workspace start (name :: names) place

/-- What keeps a name in a directory from leading further. -/
inductive Halts (workspace : Workspace) (place : List String) (name : String) :
    Obstacle → Prop where
  | tooLong (h : maxNameBytes < name.utf8ByteSize) : Halts workspace place name .tooLong
  | missing (hshort : name.utf8ByteSize ≤ maxNameBytes)
      (h : workspace.find? (place ++ [name]) = none) : Halts workspace place name .missingParent
  | file {content : String} (hshort : name.utf8ByteSize ≤ maxNameBytes)
      (h : workspace.find? (place ++ [name]) = some (.file content)) :
      Halts workspace place name .fileAsParent

section

variable {workspace : Workspace} {start front names rest place there : List String}
  {name file : String} {obstacle : Obstacle}

theorem Leads.walk_append (h : workspace.Leads start front place) (file : String)
    (rest : List String) :
    workspace.walk file start (front ++ rest) = workspace.walk file place rest := by
  induction h with
  | here place => rfl
  | up h ih =>
      rw [List.cons_append, walk, if_pos rfl]
      exact ih
  | down hname hshort hfind h ih =>
      rw [List.cons_append, walk, if_neg hname, if_neg (Nat.not_lt.mpr hshort), hfind]
      exact ih

theorem Leads.walk_eq (h : workspace.Leads start names place) (file : String) :
    workspace.walk file start names = .ok (place, .directory) := by
  have hwalk := h.walk_append file []
  rw [List.append_nil] at hwalk
  exact hwalk

/-- A walk leads to a directory, or it comes to a name that does not lead further. -/
theorem leads_or_halts (workspace : Workspace) (start names : List String) :
    (∃ place, workspace.Leads start names place) ∨
      ∃ front name rest place obstacle, names = front ++ name :: rest ∧ name ≠ ".." ∧
        workspace.Leads start front place ∧ workspace.Halts place name obstacle := by
  induction names generalizing start with
  | nil => exact .inl ⟨start, .here start⟩
  | cons name names ih =>
      by_cases hname : name = ".."
      · subst hname
        rcases ih start.dropLast with ⟨place, h⟩ | ⟨front, next, rest, place, obstacle, rfl, h⟩
        · exact .inl ⟨place, .up h⟩
        · exact .inr ⟨".." :: front, next, rest, place, obstacle, rfl, h.1, .up h.2.1, h.2.2⟩
      · by_cases hlong : maxNameBytes < name.utf8ByteSize
        · exact .inr ⟨[], name, names, start, .tooLong, rfl, hname, .here start, .tooLong hlong⟩
        · have hshort := Nat.not_lt.mp hlong
          cases hfind : workspace.find? (start ++ [name]) with
          | none =>
              exact .inr ⟨[], name, names, start, _, rfl, hname, .here start, .missing hshort hfind⟩
          | some entry =>
              cases entry with
              | file content =>
                  exact .inr ⟨[], name, names, start, _, rfl, hname, .here start,
                    .file hshort hfind⟩
              | directory =>
                  rcases ih (start ++ [name]) with ⟨place, h⟩ |
                    ⟨front, next, rest, place, obstacle, rfl, h⟩
                  · exact .inl ⟨place, .down hname hshort hfind h⟩
                  · exact .inr ⟨name :: front, next, rest, place, obstacle, rfl, h.1,
                      .down hname hshort hfind h.2.1, h.2.2⟩

/-- A walk ends at a name that does not lead further; it has come to something only where this is
a file and nothing follows. -/
theorem Halts.walk_cases (h : workspace.Halts place name obstacle) (hname : name ≠ "..")
    (file : String) (rest : List String) :
    workspace.walk file place (name :: rest) = .error (obstacle.fault file) ∨
      (obstacle = .fileAsParent ∧ rest = [] ∧ ∃ content,
        workspace.walk file place (name :: rest) = .ok (place ++ [name], .file content)) := by
  rw [walk, if_neg hname]
  cases h with
  | tooLong hlong => exact .inl (if_pos hlong)
  | missing hshort hfind =>
      rw [if_neg (Nat.not_lt.mpr hshort), hfind]
      exact .inl rfl
  | @file content hshort hfind =>
      rw [if_neg (Nat.not_lt.mpr hshort), hfind]
      by_cases hlast : rest = []
      · exact .inr ⟨rfl, hlast, content, if_pos (List.isEmpty_iff.mpr hlast)⟩
      · exact .inl (if_neg (mt List.isEmpty_iff.mp hlast))

theorem Leads.of_append (h : workspace.Leads start (front ++ rest) place) :
    ∃ there, workspace.Leads start front there ∧ workspace.Leads there rest place := by
  induction front generalizing start with
  | nil => exact ⟨start, .here start, h⟩
  | cons name front ih =>
      cases h with
      | up h =>
          obtain ⟨there, hfront, hrest⟩ := ih h
          exact ⟨there, .up hfront, hrest⟩
      | down hname hshort hfind h =>
          obtain ⟨there, hfront, hrest⟩ := ih h
          exact ⟨there, .down hname hshort hfind hfront, hrest⟩

end

/-! ## Storing a text -/

/-- An obstacle to storing a text under a path.  A directory is noticed first, and a barred place
before all that lies on the way. -/
inductive Blocks (workspace : Workspace) (path : Path) : Obstacle → Prop where
  | directory {place : List String} (hspelling : path.text.utf8ByteSize ≤ maxPathBytes)
      (h : workspace.Leads (workspace.origin path) path.parts place) :
      Blocks workspace path .directory
  | barred {fault : SystemFault} (h : workspace.barrier? path = some fault) :
      Blocks workspace path (.barred fault)
  | spelling (hfree : workspace.barrier? path = none)
      (h : maxPathBytes < path.text.utf8ByteSize) : Blocks workspace path .tooLong
  | name {front rest place : List String} {name : String} {obstacle : Obstacle}
      (hfree : workspace.barrier? path = none) (hspelling : path.text.utf8ByteSize ≤ maxPathBytes)
      (hparts : path.parts = front ++ name :: rest) (hname : name ≠ "..")
      (hleads : workspace.Leads (workspace.origin path) front place)
      (hhalts : workspace.Halts place name obstacle) (hrest : obstacle = .tooLong ∨ rest ≠ []) :
      Blocks workspace path obstacle

section

variable {workspace : Workspace} {path : Path} {front rest place : List String} {name : String}
  {obstacle : Obstacle}

theorem look_of_leads (hspelling : path.text.utf8ByteSize ≤ maxPathBytes)
    (h : workspace.Leads (workspace.origin path) path.parts place) :
    workspace.look path = .ok (place, .directory) := by
  rw [look, if_neg (Nat.not_lt.mpr hspelling)]
  exact h.walk_eq _

theorem barrier?_of_leads (hspelling : path.text.utf8ByteSize ≤ maxPathBytes)
    (h : workspace.Leads (workspace.origin path) path.parts place) :
    workspace.barrier? path = none := by
  apply if_pos
  rw [isDirectory, look_of_leads hspelling h]

/-- The spelling of a path without names is no longer than two characters. -/
theorem parts_ne_nil_of_long (h : maxPathBytes < path.text.utf8ByteSize) : path.parts ≠ [] := by
  intro hparts
  obtain ⟨anchor, parts⟩ := path
  obtain rfl : parts = [] := hparts
  revert h
  cases anchor <;> decide

theorem target_of_leads (hspelling : path.text.utf8ByteSize ≤ maxPathBytes)
    (hparts : path.parts = front ++ [name])
    (h : workspace.Leads (workspace.origin path) front place) :
    workspace.target path name =
      if name.utf8ByteSize > maxNameBytes then .error (.tooLong path.text)
      else .ok (place ++ [name], workspace.find? (place ++ [name])) := by
  rw [target, if_neg (Nat.not_lt.mpr hspelling), hparts, List.dropLast_concat, h.walk_eq]

theorem target_of_halts {last : String} (hspelling : path.text.utf8ByteSize ≤ maxPathBytes)
    (hparts : path.parts = front ++ name :: rest ++ [last]) (hname : name ≠ "..")
    (hleads : workspace.Leads (workspace.origin path) front place)
    (hhalts : workspace.Halts place name obstacle) :
    workspace.target path last = .error (obstacle.fault path.text) := by
  rw [target, if_neg (Nat.not_lt.mpr hspelling), hparts, List.dropLast_concat, hleads.walk_append]
  -- Where the walk ends at a file, there are no names in it.
  rcases hhalts.walk_cases hname path.text rest with hwalk | ⟨rfl, -, content, hwalk⟩
  · rw [hwalk]
  · rw [hwalk]
    rfl

theorem Blocks.store_eq (h : workspace.Blocks path obstacle) (content : String) :
    workspace.store path content = .error (obstacle.fault path.text) := by
  unfold store
  cases h with
  | barred h => rw [h]; rfl
  | directory hspelling h =>
      rw [barrier?_of_leads hspelling h]
      split
      · contradiction
      · rfl
      · rw [look_of_leads hspelling h]
        rfl
      · rename_i name hup _ hlast
        obtain ⟨front, hparts⟩ := List.getLast?_eq_some_iff.mp hlast
        rw [hparts] at h
        obtain ⟨there, hfront, hend⟩ := h.of_append
        rw [target_of_leads hspelling hparts hfront]
        cases hend with
        | up => exact absurd rfl hup
        | down hname hshort hfind hend =>
            rw [if_neg (Nat.not_lt.mpr hshort), hfind]
            rfl
  | spelling hfree h =>
      rw [hfree]
      split
      · contradiction
      · rename_i hlast
        exact absurd (List.getLast?_eq_none_iff.mp hlast) (parts_ne_nil_of_long h)
      · rw [look, if_pos h]
        rfl
      · rw [target, if_pos h]
        rfl
  | @name front rest place name _ hfree hspelling hparts hname hleads hhalts hrest =>
      rw [hfree]
      split
      · contradiction
      · rename_i hlast
        rw [hparts] at hlast
        simp at hlast
      · rw [look, if_neg (Nat.not_lt.mpr hspelling), hparts, hleads.walk_append]
        rcases hhalts.walk_cases hname path.text rest with hwalk | ⟨rfl, hnone, -⟩
        · rw [hwalk]
        · exact absurd hnone (hrest.resolve_left nofun)
      · rename_i last hup _ hlast
        rcases List.eq_nil_or_concat rest with rfl | ⟨above, final, rfl⟩
        · obtain rfl := hrest.resolve_right (absurd rfl)
          obtain rfl : name = last := by simpa [hparts] using hlast
          rw [target_of_leads hspelling hparts hleads]
          cases hhalts with
          | tooLong hlong => rw [if_pos hlong]; rfl
        · obtain rfl : final = last := by simpa [hparts, List.getLast?_cons] using hlast
          have hsplit : path.parts = front ++ name :: above ++ [final] := by simp [hparts]
          rw [target_of_halts hspelling hsplit hname hleads hhalts]

theorem exists_leads_of_isDirectory (h : workspace.isDirectory path = true) :
    path.text.utf8ByteSize ≤ maxPathBytes ∧
      ∃ place, workspace.Leads (workspace.origin path) path.parts place := by
  rw [isDirectory, look] at h
  by_cases hlong : maxPathBytes < path.text.utf8ByteSize
  · rw [if_pos hlong] at h
    cases h
  · refine ⟨Nat.not_lt.mp hlong, ?_⟩
    rw [if_neg hlong] at h
    rcases workspace.leads_or_halts (workspace.origin path) path.parts with
      hleads | ⟨front, name, rest, place, obstacle, hparts, hname, hleads, hhalts⟩
    · exact hleads
    · rw [hparts, hleads.walk_append] at h
      rcases hhalts.walk_cases hname path.text rest with hwalk | ⟨-, -, content, hwalk⟩
      · rw [hwalk] at h
        cases h
      · rw [hwalk] at h
        cases h

/-- The last name of a path may stand for a file or for nothing. -/
theorem exists_store_of_last {content : String} (hfree : workspace.barrier? path = none)
    (hspelling : path.text.utf8ByteSize ≤ maxPathBytes) (hparts : path.parts = front ++ [name])
    (hname : name ≠ "..") (hleads : workspace.Leads (workspace.origin path) front place)
    (hhalts : workspace.Halts place name obstacle) (hobstacle : obstacle ≠ .tooLong) :
    ∃ after, workspace.store path content = .ok after := by
  have hlast : path.parts.getLast? = some name := by simp [hparts]
  unfold store
  rw [hfree, hlast]
  split
  · contradiction
  · contradiction
  · rename_i hup
    exact absurd (Option.some_inj.mp hup) hname
  · rename_i heq
    obtain rfl := Option.some_inj.mp heq
    rw [target_of_leads hspelling hparts hleads]
    cases hhalts with
    | tooLong => exact absurd rfl hobstacle
    | missing hshort hfind =>
        rw [if_neg (Nat.not_lt.mpr hshort), hfind]
        exact ⟨_, rfl⟩
    | file hshort hfind =>
        rw [if_neg (Nat.not_lt.mpr hshort), hfind]
        exact ⟨_, rfl⟩

/-- Where nothing stands in the way, a text is stored. -/
theorem exists_store_or_blocks (workspace : Workspace) (path : Path) (content : String) :
    (∃ after, workspace.store path content = .ok after) ∨
      ∃ obstacle, workspace.Blocks path obstacle := by
  cases hfree : workspace.barrier? path with
  | some fault => exact .inr ⟨_, .barred hfree⟩
  | none =>
      by_cases hlong : maxPathBytes < path.text.utf8ByteSize
      · exact .inr ⟨_, .spelling hfree hlong⟩
      · have hspelling := Nat.not_lt.mp hlong
        rcases workspace.leads_or_halts (workspace.origin path) path.parts with
          ⟨place, hleads⟩ | ⟨front, name, rest, place, obstacle, hparts, hname, hleads, hhalts⟩
        · exact .inr ⟨_, .directory hspelling hleads⟩
        · by_cases hrest : obstacle = .tooLong ∨ rest ≠ []
          · exact .inr ⟨_, .name hfree hspelling hparts hname hleads hhalts hrest⟩
          · obtain ⟨hobstacle, hrest⟩ := not_or.mp hrest
            obtain rfl := Classical.not_not.mp hrest
            exact .inl (exists_store_of_last hfree hspelling hparts hname hleads hhalts hobstacle)

theorem store_eq_error_iff {content : String} {fault : SystemFault} :
    workspace.store path content = .error fault ↔
      ∃ obstacle, workspace.Blocks path obstacle ∧ fault = obstacle.fault path.text := by
  constructor
  · intro h
    rcases workspace.exists_store_or_blocks path content with ⟨after, hstored⟩ | ⟨obstacle, hblocks⟩
    · rw [hstored] at h
      cases h
    · refine ⟨obstacle, hblocks, ?_⟩
      rw [hblocks.store_eq] at h
      cases h
      rfl
  · rintro ⟨obstacle, hblocks, rfl⟩
    exact hblocks.store_eq content

end

end Workspace

end ArithAsm
