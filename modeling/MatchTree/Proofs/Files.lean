import MatchTree.Console.Session
import MatchTree.Proofs.Outcome
import MatchTree.Proofs.Words

/-!
# What stays in a store of files

* `Path.IsName` — a text that names a file in a directory: one piece, and no dots that lead
  elsewhere.
* `FileStore.Keeps` — whatever stands at a place in one store stands there in another.
* `FileStore.Holds` — a path leads to a place, and a file stands there.
* `FileStore.takeSteps` — the steps of a session whose files can all be written.

Principal results: `write_ok` — what writing a file does; `Holds.write` — files at other places stay
as they are; `exists_holds_of_write` — the file that is written is there; `run_of_takeSteps` — a
session whose files can all be written leaves what its steps leave, and its own exit code.
-/

namespace MatchTree

/-! ## Names -/

namespace Path

/-- The text is the name of a file in a directory. -/
structure IsName (name : String) : Prop where
  ne_empty : name ≠ ""
  ne_dot : name ≠ "."
  ne_dots : name ≠ ".."
  no_slash : '/' ∉ name.toList

variable {name directory path : String}

theorem pieces_eq_singleton (h : '/' ∉ name.toList) : pieces name = [name] := by
  rw [pieces, Text.pieces_eq_singleton_of_not_mem h, List.map_singleton, String.ofList_toList]

theorem pieces_append_slash (directory path : String) :
    pieces (directory ++ "/" ++ path) = pieces directory ++ pieces path := by
  have hslash : (directory ++ "/" ++ path).toList = directory.toList ++ '/' :: path.toList := by
    simp
  rw [pieces, hslash, Text.pieces_append (by decide), List.map_append, pieces, pieces]

/-- A path below a directory ends in its name. -/
theorem exists_pieces_join (h : '/' ∉ name.toList) :
    ∃ front, pieces (join directory name) = front ++ [name] := by
  unfold join
  split
  · rename_i hends
    rcases hends with hempty | hslash
    · obtain rfl : directory = "" := by simpa using hempty
      exact ⟨[], by rw [String.empty_append, pieces_eq_singleton h, List.nil_append]⟩
    · obtain ⟨front, hfront⟩ := List.getLast?_eq_some_iff.1 hslash
      have hdirectory : directory = String.ofList front ++ "/" :=
        String.toList_inj.1 (by rw [hfront]; simp)
      exact ⟨_, by rw [hdirectory, pieces_append_slash, pieces_eq_singleton h]⟩
  · exact ⟨_, by rw [pieces_append_slash, pieces_eq_singleton h]⟩

theorem join_inj {name' : String} : join directory name = join directory name' ↔ name = name' := by
  unfold join
  split <;> simp

theorem no_slash_of_mem_pieces {piece : String} (h : piece ∈ pieces path) : '/' ∉ piece.toList := by
  obtain ⟨w, hw, rfl⟩ := List.mem_map.1 h
  rw [String.toList_ofList]
  intro hslash
  exact absurd (Text.of_mem_pieces hw _ hslash) (by decide)

end Path

namespace FileStore

variable {s s' : FileStore} {place other : List String} {path content : String}

/-! ## Places -/

/-- Whatever stands at a place in the first store stands there in the second. -/
def Keeps (s s' : FileStore) : Prop :=
  ∀ place item, s.at? place = some item → s'.at? place = some item

theorem Keeps.refl (s : FileStore) : s.Keeps s :=
  fun _ _ h => h

theorem Keeps.trans {m : FileStore} (h : s.Keeps m) (h' : m.Keeps s') : s.Keeps s' :=
  fun place item hitem => h' place item (h place item hitem)

/-- What stands at a place depends on the file there, and otherwise only grows. -/
theorem at?_mono {item : Item}
    (hfile : s'.files.find? (fun f => f.1 == place) = s.files.find? fun f => f.1 == place)
    (hdirectories : ∀ d ∈ s.directories, d ∈ s'.directories)
    (hbelow : s.files.any (fun f => place.isPrefixOf f.1) = true →
      s'.files.any (fun f => place.isPrefixOf f.1) = true)
    (h : s.at? place = some item) : s'.at? place = some item := by
  unfold at? at h ⊢
  split at h
  · rename_i hnull
    rw [if_pos hnull]
    exact h
  · rename_i hnull
    rw [if_neg hnull, hfile]
    split at h
    · exact h
    · split at h
      · rename_i hdirectory
        rw [if_pos (hdirectory.imp_right (Or.imp (hdirectories place) (Or.imp_right hbelow)))]
        exact h
      · cases h

/-- A file that is put at a place stands there. -/
theorem at?_put_self (h : place ≠ Path.nullDevice) :
    (s.put place content).at? place = some (.file content) := by
  have hnone : (s.files.filter fun f => f.1 != place).find? (fun f => f.1 == place) = none := by
    simp [List.find?_eq_none]
  rw [put, if_neg h, at?, if_neg h]
  simp [List.find?_append, hnone]

/-- A file that is put at a place leaves the other places as they are. -/
theorem at?_put_of_ne {item : Item} (hne : other ≠ place) (h : s.at? other = some item) :
    (s.put place content).at? other = some item := by
  unfold put
  split
  · exact h
  · refine at?_mono (s := s) ?_ (fun d hd => hd) ?_ h
    · have hsame : (s.files.filter fun f => f.1 != place).find? (fun f => f.1 == other) =
          s.files.find? fun f => f.1 == other := by
        rw [List.find?_filter]
        congr 1
        funext f
        by_cases hf : f.1 = other <;> simp [hf, hne]
      have hlast : (place == other) = false := beq_false_of_ne (Ne.symm hne)
      rw [List.find?_append, hsame]
      simp [hlast]
    · -- a file that is replaced is put back at its place
      intro hbelow
      obtain ⟨f, hf, hprefix⟩ := List.any_eq_true.1 hbelow
      rw [List.any_append, Bool.or_eq_true]
      by_cases heq : f.1 = place
      · exact Or.inr (by simpa [heq] using hprefix)
      · exact Or.inl (List.any_eq_true.2 ⟨f, List.mem_filter.2 ⟨hf, by simpa using heq⟩, hprefix⟩)

/-! ## Directories -/

theorem Keeps.of_makeDirectory {start parts : List String}
    (h : s.makeDirectory start parts = .ok s') : s.Keeps s' := by
  obtain ⟨place, -, h⟩ := bind_eq_ok.1 h
  split at h
  · cases h
  · cases h
    intro other item hitem
    exact at?_mono (s := s) rfl (fun d hd => List.mem_append_left _ hd) id hitem

theorem Keeps.of_ensureDirectory {start parts : List String}
    (h : s.ensureDirectory start parts = .ok s') : s.Keeps s' := by
  unfold ensureDirectory at h
  split at h
  · rename_i m hm
    cases h
    exact .of_makeDirectory hm
  · split at h
    · cases h
      exact .refl s
    · cases h

/-- **Making directories leaves what stands already.** -/
theorem Keeps.of_makeDirectories {start parts : List String}
    (h : s.makeDirectories start parts = .ok s') : s.Keeps s' := by
  induction parts generalizing s' with
  | nil =>
    cases h
    exact .refl s
  | cons part front ih =>
    rw [makeDirectories] at h
    split at h
    · obtain ⟨m, hm, h⟩ := bind_eq_ok.1 h
      exact (ih hm).trans (.of_ensureDirectory h)
    · exact .of_ensureDirectory h

/-! ## Paths -/

/-- A path leads to the same place where its directories are kept. -/
theorem follow_of_directories {parts target : List String}
    (hkeeps : ∀ place, s.at? place = some .directory → s'.at? place = some .directory)
    (h : s.follow place parts = .ok target) : s'.follow place parts = .ok target := by
  induction parts generalizing place with
  | nil => exact h
  | cons part parts ih =>
    rw [follow] at h ⊢
    split at h
    · rename_i hdirectory
      rw [hkeeps place hdirectory]
      split at h
      · cases h
      · rename_i hshort
        simp only [if_neg hshort]
        exact ih h
    · cases h
    · cases h

theorem follow_append {first second : List String} :
    s.follow place (first ++ second) = s.follow place first >>= fun p => s.follow p second := by
  induction first generalizing place with
  | nil => rfl
  | cons part parts ih =>
    rw [List.cons_append, follow, follow]
    split
    · split
      · rfl
      · exact ih
    · rfl
    · rfl

theorem place_ok : s.place path = .ok place ↔
    Path.isTooLong path = false ∧ s.follow (Path.start path) (Path.pieces path) = .ok place := by
  unfold FileStore.place
  split
  · rename_i hlong
    simp [hlong]
  · rename_i hlong
    simp [hlong]

/-- A path below a directory leads to a place that ends in its name. -/
theorem exists_place_join {directory name : String} (hname : Path.IsName name)
    (h : s.place (Path.join directory name) = .ok place) : ∃ front, place = front ++ [name] := by
  obtain ⟨front, hfront⟩ : ∃ front, Path.pieces (Path.join directory name) = front ++ [name] :=
    Path.exists_pieces_join hname.no_slash
  obtain ⟨-, hfollow⟩ := place_ok.1 h
  rw [hfront, follow_append] at hfollow
  obtain ⟨above, -, hlast⟩ := bind_eq_ok.1 hfollow
  rw [follow] at hlast
  split at hlast
  · split at hlast
    · cases hlast
    · cases hlast
      refine ⟨above, ?_⟩
      rw [Path.step, if_neg (by simp [hname.ne_empty, hname.ne_dot]), if_neg hname.ne_dots]
  · cases hlast
  · cases hlast

/-! ## Files -/

/-- A path leads to a place where a file with the content stands. -/
def Holds (s : FileStore) (path : String) (place : List String) (content : String) : Prop :=
  s.place path = .ok place ∧ s.at? place = some (.file content)

theorem Holds.read (h : s.Holds path place content) : s.read path = .ok content := by
  rw [FileStore.read, h.1]
  exact bind_eq_ok.2 ⟨place, rfl, by rw [h.2]; rfl⟩

/-- **What writing a file does**: it makes directories, and then it puts the file at its place,
where no directory stands. -/
theorem write_ok (h : s.write path content = .ok s') :
    ∃ m place, s.Keeps m ∧ m.place path = .ok place ∧ m.at? place ≠ some .directory ∧
      s' = m.put place content := by
  obtain ⟨m, hm, h⟩ := bind_eq_ok.1 h
  split at h
  · cases h
  · obtain ⟨place, hplace, h⟩ := bind_eq_ok.1 h
    split at h
    · cases h
    · rename_i hdirectory
      cases h
      exact ⟨m, place, .of_makeDirectories hm, hplace, hdirectory, rfl⟩

/-- Where no directory is replaced by a file, paths lead to the same places. -/
theorem place_put (hdirectory : s.at? place ≠ some .directory) (h : s.place path = .ok other) :
    (s.put place content).place path = .ok other := by
  obtain ⟨hshort, hfollow⟩ := place_ok.1 h
  refine place_ok.2 ⟨hshort, follow_of_directories (fun d hd => at?_put_of_ne ?_ hd) hfollow⟩
  rintro rfl
  exact hdirectory hd

theorem place_of_keeps (hkeeps : s.Keeps s') (h : s.place path = .ok place) :
    s'.place path = .ok place := by
  obtain ⟨hshort, hfollow⟩ := place_ok.1 h
  exact place_ok.2 ⟨hshort, follow_of_directories (fun d => hkeeps d .directory) hfollow⟩

/-- **Files at other places stay as they are.** -/
theorem Holds.write {written text : String} (h : s.Holds path place content)
    (hwrite : s.write written text = .ok s') (hne : s'.place written ≠ .ok place) :
    s'.Holds path place content := by
  obtain ⟨m, target, hkeeps, htarget, hdirectory, rfl⟩ := write_ok hwrite
  have hother : place ≠ target := by
    rintro rfl
    exact hne (place_put hdirectory htarget)
  exact ⟨place_put hdirectory (place_of_keeps hkeeps h.1),
    at?_put_of_ne hother (hkeeps _ _ h.2)⟩

/-- **A file that is written is there**, unless it is the device that keeps nothing. -/
theorem exists_holds_of_write (hwrite : s.write path content = .ok s')
    (hplace : s'.place path ≠ .ok Path.nullDevice) : ∃ place, s'.Holds path place content := by
  obtain ⟨m, place, hkeeps, hm, hdirectory, rfl⟩ := write_ok hwrite
  have hplace' : (m.put place content).place path = .ok place := place_put hdirectory hm
  refine ⟨place, hplace', at?_put_self ?_⟩
  rintro rfl
  exact hplace hplace'

/-! ## Sessions -/

/-- Takes one step that can be taken. -/
def takeStep (s : FileStore) : Step → Except FileFlaw FileStore
  | .write path content => s.write path content
  | _ => .ok s

/-- Takes steps one by one; a file that cannot be written ends them. -/
def takeSteps (s : FileStore) (steps : List Step) : Except FileFlaw FileStore :=
  steps.foldlM takeStep s

theorem takeSteps_append {first second : List Step} :
    s.takeSteps (first ++ second) = .ok s' ↔
      ∃ m, s.takeSteps first = .ok m ∧ m.takeSteps second = .ok s' := by
  rw [takeSteps, List.foldlM_append, bind_eq_ok]
  rfl

theorem runSteps_of_takeSteps {micros : Nat} {exitCode : UInt8} {steps : List Step}
    (h : s.takeSteps steps = .ok s') :
    (s.runSteps micros exitCode steps).store = s' ∧
      (s.runSteps micros exitCode steps).exitCode = exitCode := by
  induction steps generalizing s with
  | nil =>
    cases h
    exact ⟨rfl, rfl⟩
  | cons step steps ih =>
    rw [takeSteps, List.foldlM_cons, bind_eq_ok] at h
    obtain ⟨m, hstep, hrest⟩ := h
    cases step with
    | write path content =>
      have hwrite : s.write path content = .ok m := hstep
      rw [runSteps, hwrite]
      exact ih hrest
    | print line =>
      cases hstep
      exact ih hrest
    | printTimed line =>
      cases hstep
      exact ih hrest
    | report line =>
      cases hstep
      exact ih hrest

/-- **A session whose files can all be written leaves what its steps leave, and its exit code.** -/
theorem run_of_takeSteps {session : Session} (h : s.takeSteps session.steps = .ok s')
    (micros : Nat) :
    (s.run micros session).store = s' ∧ (s.run micros session).exitCode = session.exitCode :=
  runSteps_of_takeSteps h

end FileStore

end MatchTree
