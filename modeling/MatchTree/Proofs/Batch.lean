import MatchTree.Console.Commands
import MatchTree.Proofs.Files

/-!
# What a batch leaves

* `Attempt`, `Attempts` — the trees of a batch, each with its program or its fault.
* `Attempt.Writes`, `LastWrites` — a tree writes a text to a file, and no later tree writes there.
* `FirstFault` — the exit code of the first tree that does not compile.

The file of a tree is named for the last part of its path only, so trees of different directories
may share it. Each of them is then told as written, and the last one stays.

Principal results: `Attempts.session_eq` — what a batch does; `LastWrites.holds` — a file holds the
text of the last tree that writes it; `Batch.last_tree_stays` — hence every tree that compiles has
its own text in its file exactly if trees that share a file name share their text;
`Batch.exists_overwritten` — there is a batch where one has not.
-/

namespace MatchTree

/-! ## File names -/

namespace Path

/-- The name of the file for a tree's program. -/
def artifactName (tree : String) : String := (stem? tree).getD "tree" ++ ".txt"

theorem mem_of_beforeLastDot? {name front : List Char} (h : beforeLastDot? name = some front)
    {c : Char} (hc : c ∈ front) : c ∈ name := by
  unfold beforeLastDot? at h
  split at h
  · cases h
    have hdrop := List.mem_of_mem_drop (List.mem_reverse.1 hc)
    exact List.mem_reverse.1 ((List.dropWhile_sublist _).subset hdrop)
  · cases h

theorem mem_pieces_of_mem_parts {path part : String} (h : part ∈ parts path) :
    part ∈ pieces path := by
  obtain ⟨⟨piece, i⟩, hmem, hpart⟩ := List.mem_filterMap.1 h
  dsimp only at hpart
  split at hpart
  · cases hpart
  · cases hpart
    exact List.fst_mem_of_mem_zipIdx hmem

theorem no_slash_of_stem? {path stem : String} (h : stem? path = some stem) :
    '/' ∉ stem.toList := by
  obtain ⟨name, hname, rfl⟩ := Option.map_eq_some_iff.1 h
  have hpart : name ∈ parts path := List.mem_of_getLast? (Option.eq_some_of_filter_eq_some hname)
  have hslash := no_slash_of_mem_pieces (mem_pieces_of_mem_parts hpart)
  split
  · rename_i hfront
    rw [String.toList_ofList]
    exact fun hmem => hslash (mem_of_beforeLastDot? hfront hmem)
  · exact hslash

theorem length_artifactName (tree : String) :
    (artifactName tree).length = ((stem? tree).getD "tree").length + 4 := by
  rw [artifactName, String.length_append]
  rfl

/-- The name is long enough not to be dots, and it is one piece. -/
theorem isName_artifactName (tree : String) : IsName (artifactName tree) := by
  have hlong : ∀ text : String, text.length < 4 → artifactName tree ≠ text := by
    rintro text hshort rfl
    rw [length_artifactName] at hshort
    omega
  refine ⟨hlong "" (by decide), hlong "." (by decide), hlong ".." (by decide), ?_⟩
  have hstem : '/' ∉ ((stem? tree).getD "tree").toList := by
    cases h : stem? tree with
    | none => decide
    | some stem => exact no_slash_of_stem? h
  rw [artifactName, String.toList_append, List.mem_append, not_or]
  exact ⟨hstem, by decide⟩

/-- No program goes to the device that keeps nothing. -/
theorem artifactName_ne_null (tree : String) : artifactName tree ≠ "null" := by
  intro heq
  have hlast := congrArg (fun name : String => name.toList.getLast?) heq
  simp [artifactName] at hlast

end Path

theorem artifactPath_eq_iff {outDir tree other : String} :
    artifactPath outDir tree = artifactPath outDir other ↔
      Path.artifactName tree = Path.artifactName other :=
  Path.join_inj

/-! ## What is tried -/

/-- A tree of a batch, by its path, with its program or its fault. -/
abbrev Attempt := String × Except Fault Compilation

/-- What a batch tries: all its trees load, and each is compiled with the settings of the
manifest. -/
def Attempts (read : FileReader) (trees : List String) (features : String)
    (attempts : List Attempt) : Prop :=
  ∃ manifest schema, loadManifest read features = .ok (manifest, schema) ∧
    List.Forall₂ (fun path attempt => ∃ t, loadTree read path = .ok t ∧
      attempt = (path, t.compile schema manifest.budget manifest.naming)) trees attempts

/-- The tree compiles, and the text of its program goes to the file. -/
def Attempt.Writes (outDir : String) (a : Attempt) (path text : String) : Prop :=
  ∃ c, a.2 = .ok c ∧ artifactPath outDir a.1 = path ∧ c.program.text = text

/-- Of the trees that write the file, the last one writes the text. -/
def LastWrites (outDir : String) (attempts : List Attempt) (path text : String) : Prop :=
  ∃ before a after, attempts = before ++ a :: after ∧ Attempt.Writes outDir a path text ∧
    ∀ b ∈ after, ∀ text', ¬ Attempt.Writes outDir b path text'

/-- A file that some tree writes has a tree that writes it last. -/
theorem exists_lastWrites (outDir : String) {path text : String} {attempts : List Attempt}
    {a : Attempt} (ha : a ∈ attempts) (hwrites : Attempt.Writes outDir a path text) :
    ∃ last, LastWrites outDir attempts path last := by
  induction attempts generalizing a text with
  | nil => cases ha
  | cons b rest ih =>
    by_cases hlater : ∃ c ∈ rest, ∃ text', Attempt.Writes outDir c path text'
    · obtain ⟨c, hc, text', hc'⟩ := hlater
      obtain ⟨last, before, d, after, rfl, hlast, hafter⟩ := ih hc hc'
      exact ⟨last, b :: before, d, after, rfl, hlast, hafter⟩
    · rcases List.mem_cons.1 ha with rfl | ha
      · exact ⟨text, [], a, rest, rfl, hwrites, fun c hc text' h => hlater ⟨c, hc, text', h⟩⟩
      · exact absurd ⟨a, ha, text, hwrites⟩ hlater

/-- The exit code tells the first tree that does not compile; it is zero if there is none. -/
def FirstFault (attempts : List Attempt) (exitCode : UInt8) : Prop :=
  ((∀ a ∈ attempts, ∃ c, a.2 = .ok c) ∧ exitCode = 0) ∨
    ∃ before tree fault after, attempts = before ++ (tree, .error fault) :: after ∧
      (∀ a ∈ before, ∃ c, a.2 = .ok c) ∧ exitCode = fault.exitCode

theorem firstFault_firstExitCode (attempts : List Attempt) :
    FirstFault attempts (firstExitCode (attempts.map (·.2))) := by
  induction attempts with
  | nil => exact Or.inl ⟨by simp, rfl⟩
  | cons attempt rest ih =>
    obtain ⟨tree, result⟩ := attempt
    cases result with
    | error fault => exact Or.inr ⟨[], tree, fault, rest, rfl, by simp, rfl⟩
    | ok c =>
      have hcode : firstExitCode (((tree, .ok c) :: rest : List Attempt).map (·.2)) =
          firstExitCode (rest.map (·.2)) := rfl
      rw [hcode]
      rcases ih with ⟨hall, hzero⟩ | ⟨before, tree', fault, after, rfl, hbefore, hfault⟩
      · exact Or.inl ⟨List.forall_mem_cons.2 ⟨⟨c, rfl⟩, hall⟩, hzero⟩
      · exact Or.inr ⟨(tree, .ok c) :: before, tree', fault, after, rfl,
          List.forall_mem_cons.2 ⟨⟨c, rfl⟩, hbefore⟩, hfault⟩

/-- The steps of a batch. -/
def attemptSteps (outDir : String) (attempts : List Attempt) : List Step :=
  attempts.flatMap fun a => batchSteps outDir a.1 a.2

theorem Attempts.exists_loaded {read : FileReader} {trees : List String} {features : String}
    {attempts : List Attempt} (h : Attempts read trees features attempts) :
    ∃ manifest schema loaded, loadManifest read features = .ok (manifest, schema) ∧
      trees.mapM (loadTree read) = .ok loaded ∧
      attempts = trees.zip (compileBatch loaded schema manifest.budget manifest.naming) := by
  obtain ⟨manifest, schema, hmanifest, hattempts⟩ := h
  refine ⟨manifest, schema, ?_⟩
  simp only [mapM_eq_ok]
  induction hattempts with
  | nil => exact ⟨[], hmanifest, .nil, rfl⟩
  | cons hfirst _ ih =>
    obtain ⟨t, ht, rfl⟩ := hfirst
    obtain ⟨loaded, -, hloaded, rfl⟩ := ih
    exact ⟨t :: loaded, hmanifest, .cons ht hloaded, rfl⟩

/-- **What a batch does** whose trees all load. -/
theorem Attempts.session_eq {read : FileReader} {trees : List String} {features outDir : String}
    {attempts : List Attempt} (h : Attempts read trees features attempts) :
    Request.session read (.batch trees features outDir) =
      ⟨attemptSteps outDir attempts, firstExitCode (attempts.map (·.2))⟩ := by
  obtain ⟨manifest, schema, loaded, hmanifest, hloaded, rfl⟩ := h.exists_loaded
  have hsession : batchSession read trees features outDir = .ok
      ⟨attemptSteps outDir (trees.zip (compileBatch loaded schema manifest.budget manifest.naming)),
        firstExitCode (compileBatch loaded schema manifest.budget manifest.naming)⟩ := by
    rw [batchSession, bind_eq_ok]
    exact ⟨(manifest, schema), hmanifest, bind_eq_ok.2 ⟨loaded, hloaded, rfl⟩⟩
  have hlength : (compileBatch loaded schema manifest.budget manifest.naming).length ≤
      trees.length := by
    rw [compileBatch, List.length_map]
    exact Nat.le_of_eq (mapM_eq_ok.1 hloaded).length_eq.symm
  rw [Request.session, hsession, List.map_snd_zip hlength]
  rfl

/-! ## Files of programs -/

namespace FileStore

variable {s s' : FileStore} {outDir tree text : String} {place : List String} {c : Compilation}

theorem takeSteps_ok : s.takeSteps (batchSteps outDir tree (.ok c)) = .ok s' ↔
    s.write (artifactPath outDir tree) c.program.text = .ok s' := by
  rw [batchSteps, takeSteps, List.foldlM_cons, bind_eq_ok]
  constructor
  · rintro ⟨m, hwrite, hprint⟩
    cases hprint
    exact hwrite
  · exact fun hwrite => ⟨s', hwrite, rfl⟩

theorem takeSteps_error {fault : Fault} :
    s.takeSteps (batchSteps outDir tree (.error fault)) = .ok s' ↔ s = s' := by
  change (Except.ok s : Except FileFlaw FileStore) = .ok s' ↔ s = s'
  rw [Except.ok.injEq]

/-- The place of a program's file ends in the name of that file. -/
theorem exists_place_artifact (h : s.place (artifactPath outDir tree) = .ok place) :
    ∃ front, place = front ++ [Path.artifactName tree] :=
  exists_place_join (Path.isName_artifactName tree) h

theorem exists_holds_artifact (h : s.write (artifactPath outDir tree) text = .ok s') :
    ∃ place, s'.Holds (artifactPath outDir tree) place text := by
  refine exists_holds_of_write h fun hnull => ?_
  obtain ⟨front, hfront⟩ := exists_place_artifact hnull
  have hname := congrArg List.getLast? hfront
  rw [List.getLast?_concat] at hname
  exact Path.artifactName_ne_null tree (Option.some.inj hname).symm

/-- **A tree leaves the file of another**, unless it writes it. -/
theorem Holds.attempt {a : Attempt} (h : s.Holds (artifactPath outDir tree) place text)
    (hsteps : s.takeSteps (batchSteps outDir a.1 a.2) = .ok s')
    (hnot : ∀ text', ¬ Attempt.Writes outDir a (artifactPath outDir tree) text') :
    s'.Holds (artifactPath outDir tree) place text := by
  obtain ⟨other, result⟩ := a
  cases result with
  | error fault => exact takeSteps_error.1 hsteps ▸ h
  | ok d =>
    refine h.write (takeSteps_ok.1 hsteps) fun hplace => ?_
    obtain ⟨front, rfl⟩ := exists_place_artifact h.1
    obtain ⟨front', hfront'⟩ := exists_place_artifact hplace
    have hlast := congrArg List.getLast? hfront'
    rw [List.getLast?_concat, List.getLast?_concat] at hlast
    exact hnot _ ⟨d, rfl, artifactPath_eq_iff.2 (Option.some.inj hlast).symm, rfl⟩

theorem Holds.attempts {attempts : List Attempt} (h : s.Holds (artifactPath outDir tree) place text)
    (hsteps : s.takeSteps (attemptSteps outDir attempts) = .ok s')
    (hnot : ∀ a ∈ attempts, ∀ text', ¬ Attempt.Writes outDir a (artifactPath outDir tree) text') :
    s'.Holds (artifactPath outDir tree) place text := by
  induction attempts generalizing s with
  | nil =>
    cases hsteps
    exact h
  | cons a rest ih =>
    obtain ⟨m, hfirst, hrest⟩ := takeSteps_append.1 hsteps
    obtain ⟨hnot, hnots⟩ := List.forall_mem_cons.1 hnot
    exact ih (h.attempt hfirst hnot) hrest hnots

end FileStore

/-- **A file holds the text of the last tree that writes it.** -/
theorem LastWrites.holds {s s' : FileStore} {outDir path text : String} {attempts : List Attempt}
    (h : LastWrites outDir attempts path text)
    (hsteps : s.takeSteps (attemptSteps outDir attempts) = .ok s') :
    ∃ place, s'.Holds path place text := by
  obtain ⟨before, ⟨tree, result⟩, after, rfl, ⟨c, rfl, rfl, rfl⟩, hafter⟩ := h
  rw [attemptSteps, List.flatMap_append, List.flatMap_cons] at hsteps
  obtain ⟨m, -, hsteps⟩ := FileStore.takeSteps_append.1 hsteps
  obtain ⟨m', hwrite, hrest⟩ := FileStore.takeSteps_append.1 hsteps
  obtain ⟨place, hplace⟩ := FileStore.exists_holds_artifact (FileStore.takeSteps_ok.1 hwrite)
  exact ⟨place, hplace.attempts hrest hafter⟩

/-! ## Main result -/

namespace Batch

variable {s s' : FileStore} {trees : List String} {features outDir : String}
  {attempts : List Attempt}

/-- The file of every tree that compiles holds the text of its own program. -/
def KeepsAll (s : FileStore) (outDir : String) (attempts : List Attempt) : Prop :=
  ∀ tree c, (tree, .ok c) ∈ attempts → s.read (artifactPath outDir tree) = .ok c.program.text

/-- Trees that compile and have the same file name have programs of the same text. -/
def SharesText (attempts : List Attempt) : Prop :=
  ∀ tree c other d, (tree, .ok c) ∈ attempts → (other, .ok d) ∈ attempts →
    Path.artifactName tree = Path.artifactName other → c.program.text = d.program.text

theorem keepsAll_iff
    (hlast : ∀ path text, LastWrites outDir attempts path text → s.read path = .ok text) :
    KeepsAll s outDir attempts ↔ SharesText attempts := by
  constructor
  · intro hkeeps tree c other d hc hd hname
    have hread := hkeeps tree c hc
    rw [artifactPath_eq_iff.2 hname, hkeeps other d hd] at hread
    exact (Except.ok.inj hread).symm
  · intro hshares tree c hc
    obtain ⟨text, htext⟩ := exists_lastWrites outDir hc ⟨c, rfl, rfl, rfl⟩
    rw [hlast _ _ htext]
    obtain ⟨before, ⟨last, result⟩, after, rfl, ⟨d, rfl, hpath, rfl⟩, -⟩ := htext
    have hd : (last, .ok d) ∈ before ++ (last, .ok d) :: after :=
      List.mem_append_right _ List.mem_cons_self
    rw [hshares last d tree c hd hc (artifactPath_eq_iff.1 hpath)]

/-- **The last tree stays.** The exit code is that of the first tree that does not compile, and each
file holds the text of the last tree that writes it. So every tree that compiles has its own text in
its file exactly if trees of one file name have one text. -/
theorem last_tree_stays (h : Attempts s.read trees features attempts)
    (hwrites : s.takeSteps (Request.session s.read (.batch trees features outDir)).steps = .ok s')
    (micros : Nat) :
    (s.run micros (Request.session s.read (.batch trees features outDir))).store = s' ∧
      FirstFault attempts
        (s.run micros (Request.session s.read (.batch trees features outDir))).exitCode ∧
      (∀ path text, LastWrites outDir attempts path text → s'.read path = .ok text) ∧
      (KeepsAll s' outDir attempts ↔ SharesText attempts) := by
  rw [h.session_eq] at hwrites ⊢
  obtain ⟨hstore, hcode⟩ := FileStore.run_of_takeSteps hwrites micros
  have hlast : ∀ path text, LastWrites outDir attempts path text → s'.read path = .ok text := by
    intro path text hlast
    obtain ⟨place, hplace⟩ := hlast.holds hwrites
    exact hplace.read
  refine ⟨hstore, ?_, hlast, keepsAll_iff hlast⟩
  rw [hcode]
  exact firstFault_firstExitCode attempts

/-- Files for a batch: two of the trees are in files of the same name, and one has a cycle. -/
def namesakes : FileStore :=
  .ofList [("f.toml", "[[features]]\nid = 0\nbit_width = 8\nmin = 0\nmax = 255\n"),
    ("t.json", "[[[\"leaf\",\"normal\"]]]"), ("cycle.json", "[[[\"split\",0,5,0,0]]]"),
    ("m/t.json", "[[[\"leaf\",\"attack\"]]]")]

/-- The trees of the batch. -/
def namesakeTrees : List String := ["t.json", "cycle.json", "m/t.json"]

theorem exists_attempts_namesakes :
    ∃ normal fault attack, normal.program.text ≠ attack.program.text ∧
      Attempts namesakes.read namesakeTrees "f.toml"
        [("t.json", .ok normal), ("cycle.json", .error fault), ("m/t.json", .ok attack)] := by
  obtain ⟨⟨manifest, schema⟩, hmanifest, hcompiled⟩ := exists_ok_of_any
    (show ((loadManifest namesakes.read "f.toml").toOption.any fun loaded =>
      ((Tree.constant .normal).compile loaded.2 loaded.1.budget loaded.1.naming).toOption.any
        fun c => ((Tree.constant .attack).compile loaded.2 loaded.1.budget
          loaded.1.naming).toOption.any fun d => c.program.text != d.program.text) = true by
      decide +kernel)
  obtain ⟨normal, hnormal, hcompiled⟩ := exists_ok_of_any hcompiled
  obtain ⟨attack, hattack, hne⟩ := exists_ok_of_any hcompiled
  have hfirst : loadTree namesakes.read "t.json" = .ok (.constant .normal) :=
    eq_ok_of_toOption (by decide +kernel)
  have hsecond : loadTree namesakes.read "cycle.json" = .ok ⟨#[.split 0 5 0 0]⟩ :=
    eq_ok_of_toOption (by decide +kernel)
  have hthird : loadTree namesakes.read "m/t.json" = .ok (.constant .attack) :=
    eq_ok_of_toOption (by decide +kernel)
  have hshape : Tree.shape ⟨#[.split 0 5 0 0]⟩ = .error (.malformedTree 0 .rootAsChild) := by
    decide +kernel
  refine ⟨normal, .malformedTree 0 .rootAsChild, attack, by simpa using hne, manifest, schema,
    hmanifest, .cons ⟨_, hfirst, by rw [hnormal]⟩ (.cons ⟨_, hsecond, ?_⟩
      (.cons ⟨_, hthird, by rw [hattack]⟩ .nil))⟩
  rw [Tree.compile, hshape]
  rfl

theorem exists_takeSteps_namesakes :
    ∃ s', namesakes.takeSteps
      (Request.session namesakes.read (.batch namesakeTrees "f.toml" "out")).steps = .ok s' :=
  exists_ok_of_toBool (by decide +kernel)

theorem namesakes_last_tree_stays :
    ∃ attempts s' text,
      Attempts namesakes.read namesakeTrees "f.toml" attempts ∧
      namesakes.takeSteps
        (Request.session namesakes.read (.batch namesakeTrees "f.toml" "out")).steps = .ok s' ∧
      FirstFault attempts (namesakes.run 0
        (Request.session namesakes.read (.batch namesakeTrees "f.toml" "out"))).exitCode ∧
      LastWrites "out" attempts (artifactPath "out" "m/t.json") text ∧
      s'.read (artifactPath "out" "m/t.json") = .ok text ∧
      (KeepsAll s' "out" attempts ↔ SharesText attempts) := by
  obtain ⟨normal, fault, attack, -, hattempts⟩ := exists_attempts_namesakes
  obtain ⟨s', hwrites⟩ := exists_takeSteps_namesakes
  obtain ⟨-, hcode, hread, hkeeps⟩ := last_tree_stays hattempts hwrites 0
  have hmem : ("m/t.json", .ok attack) ∈ ([("t.json", .ok normal), ("cycle.json", .error fault),
      ("m/t.json", .ok attack)] : List Attempt) := by simp
  obtain ⟨text, hlast⟩ := exists_lastWrites "out" hmem ⟨attack, rfl, rfl, rfl⟩
  exact ⟨_, s', text, hattempts, hwrites, hcode, hlast, hread _ _ hlast, hkeeps⟩

/-- **A tree of a batch may lose its file to another**, without a fault. -/
theorem exists_overwritten :
    ¬ ∀ (s s' : FileStore) (trees : List String) (features outDir : String)
      (attempts : List Attempt), trees ≠ [] → Attempts s.read trees features attempts →
        s.takeSteps (Request.session s.read (.batch trees features outDir)).steps = .ok s' →
          KeepsAll s' outDir attempts ∧
            FirstFault attempts
              (Request.session s.read (.batch trees features outDir)).exitCode := by
  intro hall
  obtain ⟨normal, fault, attack, hne, hattempts⟩ := exists_attempts_namesakes
  obtain ⟨s', hwrites⟩ := exists_takeSteps_namesakes
  obtain ⟨hkeeps, -⟩ := hall _ _ _ _ _ _ (by decide) hattempts hwrites
  have hfirst := hkeeps "t.json" normal (by simp)
  have hlast := hkeeps "m/t.json" attack (by simp)
  have hpath : artifactPath "out" "t.json" = artifactPath "out" "m/t.json" := by decide +kernel
  rw [hpath, hlast] at hfirst
  exact hne (Except.ok.inj hfirst).symm

end Batch

end MatchTree
