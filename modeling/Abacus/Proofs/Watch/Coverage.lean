import Abacus.Proofs.FileTree
import Abacus.Watch

/-!
# Directories that come later

A watcher that is told of every directory made below its roots ends up with all the directories that a watch started
afresh would cover. It ends up with more only through a hidden directory: the walk from a root passes over it, while a
walk that starts at it does not.
-/

namespace Abacus

/-! ## Names below a root -/

section
variable {files : FileTree} (ht : files.Placed) (hu : files.Upright) {root : Text} {home : List Text}

theorem ne_nil_of_resolve (hr : files.resolve root = .ok home) : root ≠ [] := by
  rintro rfl
  cases hr

theorem join_singleton (hr : root ≠ []) : Path.join [root] = Path.clean root := by
  rw [Path.join_eq_spell hr (fun s hs => absurd hs List.not_mem_nil), List.append_nil, Path.clean_eq]

section
variable {steps more : List Text} (hr : root ≠ []) (hs : ∀ s ∈ steps, Path.IsName s)
include hr hs

theorem clean_join : Path.clean (Path.join (root :: steps)) = Path.join (root :: steps) := by
  rw [Path.join_eq_spell hr hs, Path.clean_spell ((Path.isShortest_kept root).append hs)]

theorem join_join (hm : ∀ s ∈ more, Path.IsName s) :
    Path.join (Path.join (root :: steps) :: more) = Path.join (root :: (steps ++ more)) := by
  have hsm : ∀ s ∈ steps ++ more, Path.IsName s := fun s h => (List.mem_append.mp h).elim (hs s) (hm s)
  rw [Path.join_eq_spell hr hs, Path.join_spell ((Path.isShortest_kept root).append hs) hm, List.append_assoc,
    Path.join_eq_spell hr hsm]

theorem dir_join {name : Text} (hn : Path.IsName name) :
    Path.dir (Path.join (root :: (steps ++ [name]))) = Path.join (root :: steps) := by
  have hsn : ∀ s ∈ steps ++ [name], Path.IsName s := fun s h =>
    (List.mem_append.mp h).elim (hs s) fun h => List.mem_singleton.mp h ▸ hn
  rw [Path.join_eq_spell hr hsn, ← List.append_assoc, Path.dir_spell ((Path.isShortest_kept root).append hs) hn,
    Path.join_eq_spell hr hs]

end

include ht hu

/-- The name of a directory below a root leads there, if the shortest path of the root leads to the root. -/
theorem locate_join {steps : List Text} (hroot : root ≠ []) (hr : files.locate true (Path.clean root) = .ok home)
    (hd : files.node? (home ++ steps) = some .directory) {through : Bool} (hgoes : through = true ∨ steps ≠ []) :
    files.locate through (Path.join (root :: steps)) = .ok (home ++ steps) := by
  have hs : ∀ s ∈ steps, Path.IsName s := fun s h => hu.isName hd s (List.mem_append_right _ h)
  rw [Path.clean_eq] at hr
  obtain ⟨m, hm⟩ := FileTree.locate_spell_append ht (Path.isShortest_kept root) hr (hu.directory_above hd)
  rw [Path.join_eq_spell hroot hs, hm through steps hs hgoes, hu.follow hd]

end

namespace Watcher

/-! ## What is covered -/

theorem mem_insertPath {p q : Text} {ds : List Text} : p ∈ insertPath q ds ↔ p = q ∨ p ∈ ds := by
  induction ds with
  | nil => simp [insertPath]
  | cons d ds ih =>
      rw [insertPath]
      split
      · rename_i h
        subst h
        simp
      · split
        · exact List.mem_cons
        · rw [List.mem_cons, ih, List.mem_cons, or_left_comm]

theorem mem_foldl_insertPath {p : Text} {ps ds : List Text} :
    p ∈ ps.foldl (fun ds p => insertPath p ds) ds ↔ p ∈ ds ∨ p ∈ ps := by
  induction ps generalizing ds with
  | nil => simp
  | cons q ps ih => rw [List.foldl_cons, ih, mem_insertPath, List.mem_cons, or_comm (a := p = q), or_assoc]

/-- No name among the steps is hidden. -/
def Visible (steps : List Text) : Prop := ∀ s ∈ steps, Path.isHidden s = false

/-- A path that a walk from a root comes by. -/
def Covers (files : FileTree) (root p : Text) : Prop :=
  ∃ home steps, files.resolve root = .ok home ∧ files.node? (home ++ steps) = some .directory ∧ Visible steps ∧
    p = Path.join (root :: steps)

section
variable {files : FileTree} (hu : files.Upright)
include hu

theorem mem_visibleBelow {place steps : List Text} :
    steps ∈ visibleBelow files place ↔
      steps ≠ [] ∧ files.node? (place ++ steps) = some .directory ∧ Visible steps := by
  rw [visibleBelow, List.mem_filterMap]
  constructor
  · rintro ⟨⟨q, n⟩, hq, h⟩
    simp only [Option.ite_none_right_eq_some, Option.some.injEq, Bool.and_eq_true, beq_iff_eq,
      List.isPrefixOf_iff_prefix, Bool.not_eq_true', List.isEmpty_eq_false_iff] at h
    obtain ⟨⟨⟨⟨rfl, below, rfl⟩, hne⟩, hv⟩, rfl⟩ := h
    rw [List.drop_left] at hne hv ⊢
    exact ⟨hne, (hu.mem_entries_iff.mp hq).2, by simpa [Visible] using hv⟩
  · rintro ⟨hne, hd, hv⟩
    refine ⟨(place ++ steps, .directory), hu.mem_entries_iff.mpr ⟨by simp [hne], hd⟩, ?_⟩
    have hany : steps.any Path.isHidden = false := by simpa [Visible] using hv
    simp [hne, hany]

theorem mem_cover {w : Watcher} {root p : Text} :
    p ∈ (w.cover files root).dirs ↔ p ∈ w.dirs ∨ Covers files root p := by
  rw [cover]
  split
  · rename_i hr
    simp [Covers, hr]
  · rename_i place hr
    have hroot := ne_nil_of_resolve hr
    split
    · rename_i hn
      refine ⟨.inl, fun h => h.resolve_right ?_⟩
      rintro ⟨home, steps, hr', hd, -, -⟩
      cases hr.symm.trans hr'
      simp [hu.directory_above hd] at hn
    · rename_i hn
      have hd : files.node? place = some .directory := by simpa using hn
      rw [mem_foldl_insertPath, List.mem_cons, List.mem_map]
      refine or_congr_right ⟨?_, ?_⟩
      · rintro (rfl | ⟨steps, hs, rfl⟩)
        · exact ⟨place, [], hr, by simpa using hd, fun s hs => absurd hs List.not_mem_nil, (join_singleton hroot).symm⟩
        · obtain ⟨-, hd, hv⟩ := (mem_visibleBelow hu).mp hs
          exact ⟨place, steps, hr, hd, hv, rfl⟩
      · rintro ⟨home, steps, hr', hd, hv, rfl⟩
        cases hr.symm.trans hr'
        by_cases hs : steps = []
        · subst hs
          exact .inl (join_singleton hroot)
        · exact .inr ⟨steps, (mem_visibleBelow hu).mpr ⟨hs, hd, hv⟩, rfl⟩

end

theorem isDirectory_of_covers {files : FileTree} (hu : files.Upright) {root p : Text} (h : Covers files root p) :
    files.isDirectory root = .ok true := by
  obtain ⟨home, steps, hr, hd, -, -⟩ := h
  have hl := FileTree.lookup_of_node hr (hu.directory_above hd) nofun
  exact FileTree.isDirectory_eq_ok.mpr ⟨home, .directory, hl, rfl⟩

/-- All roots can be reached. -/
def Reached (files : FileTree) (roots : List Text) : Prop := ∀ r ∈ roots, ∃ b, files.isDirectory r = .ok b

theorem addAll_reached {w : Watcher} {files : FileTree} {roots : List Text} :
    (w.addAll files roots).1 = none ↔ Reached files roots := by
  induction roots generalizing w with
  | nil => simp [addAll, Reached]
  | cons r roots ih =>
      rw [addAll, Reached, List.forall_mem_cons]
      cases h : files.isDirectory r with
      | error e => simp [add, h]
      | ok b =>
          simp only [Except.ok.injEq, exists_eq', true_and]
          cases b <;> simp only [add, h] <;> exact ih

theorem mem_addAll {w : Watcher} {files : FileTree} (hu : files.Upright) {roots : List Text} {p : Text}
    (hr : Reached files roots) :
    p ∈ (w.addAll files roots).2.dirs ↔ p ∈ w.dirs ∨ ∃ r ∈ roots, Covers files r p := by
  induction roots generalizing w with
  | nil => simp [addAll]
  | cons r roots ih =>
      rw [Reached, List.forall_mem_cons] at hr
      obtain ⟨⟨b, hb⟩, hr⟩ := hr
      cases b with
      | true => simp only [addAll, add, hb, ih hr, mem_cover hu, List.exists_mem_cons_iff, or_assoc]
      | false =>
          have hnot : ¬ Covers files r p := fun h => by cases hb.symm.trans (isDirectory_of_covers hu h)
          simp only [addAll, add, hb, ih hr, List.exists_mem_cons_iff, hnot, false_or]

theorem dirs_new {included excluded : List Text} {w : Watcher} (h : new included excluded = .ok w) : w.dirs = [] := by
  rw [new] at h
  cases hi : readPatterns included with
  | error e => simp [hi, bind, Except.bind] at h
  | ok i =>
      cases he : readPatterns excluded with
      | error e => simp [hi, he, bind, Except.bind] at h
      | ok e =>
          simp only [hi, he, bind, Except.bind, pure, Except.pure, Except.ok.injEq] at h
          rw [← h]

/-! ## Directories made while watching -/

/-- A directory is made at a place, or the watcher is told of the directory some steps below a root. -/
inductive Change where
  | made (place : List Text)
  | reported (root : Text) (steps : List Text)

/-- The files and the watcher on them. -/
structure View where
  files : FileTree
  watcher : Watcher

namespace View

def after (v : View) : Change → View
  | .made place => { v with files := v.files.put place .directory }
  | .reported root steps => { v with watcher := (v.watcher.handle v.files ⟨Path.join (root :: steps), true, false⟩).2 }

def run (v : View) (changes : List Change) : View := changes.foldl after v

end View

/-- Directories are made in directories, under free names, and each is reported later by every name that a root gives
it. Reports are of directories that are there. -/
inductive Faithful (roots : List Text) : FileTree → List Change → Prop where
  | nil {files : FileTree} : Faithful roots files []
  | made {files : FileTree} {parent : List Text} {name : Text} {rest : List Change} (free : files.Free parent name)
      (told : ∀ r ∈ roots, ∀ home steps, files.resolve r = .ok home → parent ++ [name] = home ++ steps →
        .reported r steps ∈ rest)
      (later : Faithful roots (files.put (parent ++ [name]) .directory) rest) :
      Faithful roots files (.made (parent ++ [name]) :: rest)
  | reported {files : FileTree} {r name : Text} {home steps : List Text} {rest : List Change} (mem : r ∈ roots)
      (named : files.resolve r = .ok home) (there : files.node? (home ++ (steps ++ [name])) = some .directory)
      (later : Faithful roots files rest) :
      Faithful roots files (.reported r (steps ++ [name]) :: rest)

/-- The shortest path of a root that is a directory leads there. It can lead elsewhere if the root goes up from behind a
link. -/
def Straight (files : FileTree) (roots : List Text) : Prop :=
  ∀ r ∈ roots, ∀ home, files.resolve r = .ok home → files.node? home = some .directory →
    files.locate true (Path.clean r) = .ok home

/-- Roots are straight whose ways meet no link before they end. -/
theorem straight_of_unlinked {files : FileTree} (ht : files.Placed) (hu : files.Upright) {roots : List Text}
    (hplain : ∀ r ∈ roots, ∀ home, files.resolve r = .ok home →
      ∃ steps, files.steps? r = some steps ∧ files.follow false 0 [] steps = .ok home) : Straight files roots := by
  intro r hr home hhome hd
  obtain ⟨steps, hsteps, hfollow⟩ := hplain r hr home hhome
  exact FileTree.locate_clean ht hu hsteps (FileTree.follow_eq_ok_iff.mp hfollow) hd

/-- The files are in order, and the roots can be reached, also by their shortest paths. -/
structure Ready (files : FileTree) (roots : List Text) : Prop where
  placed : files.Placed
  upright : files.Upright
  reached : Reached files roots
  straight : Straight files roots

namespace Ready

variable {files : FileTree} {roots : List Text} (h : Ready files roots)
include h

theorem exists_home {r : Text} (hr : r ∈ roots) :
    ∃ home n, files.resolve r = .ok home ∧ files.node? home = some n := by
  obtain ⟨b, hb⟩ := h.reached r hr
  obtain ⟨q, n, hl, -⟩ := FileTree.isDirectory_eq_ok.mp hb
  exact FileTree.exists_resolve_of_lookup hl

theorem made {parent : List Text} {name : Text} (hf : files.Free parent name) :
    Ready (files.put (parent ++ [name]) .directory) roots := by
  have hne : parent ++ [name] ≠ [] := by simp
  have hs := FileTree.shares_put hne hf.absent .directory
  -- What was there is as it was.
  have hold {q : List Text} {n : FileNode} (hq : files.node? q = some n) :
      (files.put (parent ++ [name]) .directory).node? q = some n := by
    rw [FileTree.node?_put hne, if_neg]
    · exact hq
    · rintro rfl
      cases hf.absent.symm.trans hq
  refine ⟨h.placed, h.upright.put_directory hf, fun r hr => ?_, fun r hr home hhome hd => ?_⟩
  · obtain ⟨b, hb⟩ := h.reached r hr
    obtain ⟨q, n, hl, hn⟩ := FileTree.isDirectory_eq_ok.mp hb
    exact ⟨b, FileTree.isDirectory_eq_ok.mpr ⟨q, n, hs.lookup hl (hold (FileTree.node?_of_lookup hl)), hn⟩⟩
  · obtain ⟨home', n, hhome', hn⟩ := h.exists_home hr
    cases (hs.resolve hhome').symm.trans hhome
    cases (hold hn).symm.trans hd
    exact hs.locate (h.straight r hr _ hhome' hn) fun _ => hd.trans hn.symm

/-- The name of a directory below one of the roots leads there. -/
theorem locate_join {r : Text} (hmem : r ∈ roots) {home steps : List Text} (hr : files.resolve r = .ok home)
    (hd : files.node? (home ++ steps) = some .directory) {through : Bool} (hgoes : through = true ∨ steps ≠ []) :
    files.locate through (Path.join (r :: steps)) = .ok (home ++ steps) :=
  Abacus.locate_join h.placed h.upright (ne_nil_of_resolve hr)
    (h.straight r hmem home hr (h.upright.directory_above hd)) hd hgoes

/-- A walk that starts below a root goes on as one from the root does. -/
theorem covers_join {r p : Text} (hmem : r ∈ roots) {home steps : List Text} (hr : files.resolve r = .ok home)
    (hd : files.node? (home ++ steps) = some .directory) (hsteps : steps ≠ []) :
    Covers files (Path.join (r :: steps)) p ↔
      ∃ more, files.node? (home ++ (steps ++ more)) = some .directory ∧ Visible more ∧
        p = Path.join (r :: (steps ++ more)) := by
  have hplace : files.resolve (Path.join (r :: steps)) = .ok (home ++ steps) := h.locate_join hmem hr hd (.inr hsteps)
  have hu := h.upright
  have hnames : ∀ s ∈ steps, Path.IsName s := fun s hs => hu.isName hd s (List.mem_append_right _ hs)
  have hjoin {more : List Text} (hm : files.node? (home ++ (steps ++ more)) = some .directory) :
      Path.join (Path.join (r :: steps) :: more) = Path.join (r :: (steps ++ more)) :=
    join_join (ne_nil_of_resolve hr) hnames fun s hs =>
      hu.isName hm s (List.mem_append_right _ (List.mem_append_right _ hs))
  constructor
  · rintro ⟨place, more, hp, hm, hv, rfl⟩
    cases hplace.symm.trans hp
    rw [List.append_assoc] at hm
    exact ⟨more, hm, hv, hjoin hm⟩
  · rintro ⟨more, hm, hv, rfl⟩
    exact ⟨home ++ steps, more, hplace, by rwa [List.append_assoc], hv, (hjoin hm).symm⟩

/-- What a report does: the directory is covered if the one it is in is. -/
theorem mem_after {w : Watcher} {r p name : Text} (hmem : r ∈ roots) {home steps : List Text}
    (hr : files.resolve r = .ok home)
    (hd : files.node? (home ++ (steps ++ [name])) = some .directory) :
    p ∈ (View.after ⟨files, w⟩ (.reported r (steps ++ [name]))).watcher.dirs ↔
      p ∈ w.dirs ∨ Path.join (r :: steps) ∈ w.dirs ∧ Covers files (Path.join (r :: (steps ++ [name]))) p := by
  have hnames : ∀ s ∈ steps ++ [name], Path.IsName s := fun s hs =>
    h.upright.isName hd s (List.mem_append_right _ hs)
  have hroot := ne_nil_of_resolve hr
  have hdir : files.isDirectory (Path.join (r :: (steps ++ [name]))) = .ok true :=
    FileTree.isDirectory_eq_ok.mpr ⟨_, .directory,
      FileTree.lookup_eq_ok_iff.mpr ⟨h.locate_join hmem hr hd (.inl rfl), hd⟩, rfl⟩
  have hparent : Path.dir (Path.clean (Path.join (r :: (steps ++ [name])))) = Path.join (r :: steps) := by
    rw [clean_join hroot hnames, dir_join hroot (fun s hs => hnames s (List.mem_append_left _ hs))
      (hnames name (by simp))]
  have hhandle : (w.handle files ⟨Path.join (r :: (steps ++ [name])), true, false⟩).2 =
      if w.dirs.contains (Path.join (r :: steps)) then w.cover files (Path.join (r :: (steps ++ [name]))) else w := by
    rw [handle, hdir, hparent]
    rfl
  rw [View.after, hhandle]
  split
  · rename_i hc
    rw [mem_cover h.upright, and_iff_right (List.contains_iff_mem.mp hc)]
  · rename_i hc
    have hno : Path.join (r :: steps) ∉ w.dirs := fun hm => hc (List.contains_iff_mem.mpr hm)
    simp [hno]

end Ready

/-! ## Nothing is left out -/

/-- Every directory that a walk from a root would come by is covered, or a report is still to come of it or of one
above it. -/
def Due (roots : List Text) (v : View) (rest : List Change) : Prop :=
  ∀ r ∈ roots, ∀ home steps, v.files.resolve r = .ok home → v.files.node? (home ++ steps) = some .directory →
    Visible steps →
    Path.join (r :: steps) ∈ v.watcher.dirs ∨
      ∃ s more, s ≠ [] ∧ steps = s ++ more ∧ .reported r s ∈ rest

section
variable {roots : List Text} {v : View} {rest : List Change}

theorem due_made {parent : List Text} {name : Text} (hr : Ready v.files roots) (hf : v.files.Free parent name)
    (told : ∀ r ∈ roots, ∀ home steps, v.files.resolve r = .ok home → parent ++ [name] = home ++ steps →
      .reported r steps ∈ rest)
    (h : Due roots v (.made (parent ++ [name]) :: rest)) : Due roots (v.after (.made (parent ++ [name]))) rest := by
  have hne : parent ++ [name] ≠ [] := by simp
  have hs := FileTree.shares_put hne hf.absent .directory
  intro r hmem home steps hhome hd hv
  obtain ⟨home', n, hhome', hn⟩ := hr.exists_home hmem
  cases (hs.resolve hhome').symm.trans hhome
  have hd : (v.files.put (parent ++ [name]) .directory).node? (home ++ steps) = some .directory := hd
  rw [FileTree.node?_put hne] at hd
  split at hd
  · rename_i he
    refine .inr ⟨steps, [], ?_, by simp, told r hmem home steps hhome' he.symm⟩
    -- The place of a root is not free.
    rintro rfl
    rw [List.append_nil] at he
    cases hf.absent.symm.trans (he ▸ hn)
  · refine (h r hmem home steps hhome' hd hv).imp_right ?_
    rintro ⟨s, more, hs, he, hmem⟩
    exact ⟨s, more, hs, he, (List.mem_cons.mp hmem).resolve_left nofun⟩

theorem due_reported {r name : Text} {home steps : List Text} (hr : Ready v.files roots)
    (hmem : r ∈ roots) (hhome : v.files.resolve r = .ok home)
    (hd : v.files.node? (home ++ (steps ++ [name])) = some .directory)
    (h : Due roots v (.reported r (steps ++ [name]) :: rest)) :
    Due roots (v.after (.reported r (steps ++ [name]))) rest := by
  intro r' hmem' home' steps' hhome' hd' hv'
  rcases h r' hmem' home' steps' hhome' hd' hv' with hin | ⟨s, more, hs, rfl, hdue⟩
  · exact .inl ((hr.mem_after hmem hhome hd).mpr (.inl hin))
  · rcases List.mem_cons.mp hdue with heq | hdue
    · cases heq
      cases hhome.symm.trans hhome'
      -- The report is the one that was due. If the directory above is covered, so is all that is visible below;
      -- otherwise a report of one further up is still to come.
      have habove : v.files.node? (home ++ steps) = some .directory :=
        hr.upright.directory_above (show v.files.node? (home ++ steps ++ [name]) = _ by rwa [List.append_assoc])
      rcases h r hmem home steps hhome habove fun s hs => hv' s (by simp [hs]) with hin | ⟨s, more', hne, rfl, hdue⟩
      · refine .inl ((hr.mem_after hmem hhome hd).mpr (.inr ⟨hin, ?_⟩))
        exact (hr.covers_join hmem hhome hd (by simp)).mpr
          ⟨more, hd', fun s hs => hv' s (List.mem_append_right _ hs), rfl⟩
      · refine .inr ⟨s, more' ++ [name] ++ more, hne, by simp, (List.mem_cons.mp hdue).resolve_left fun he => ?_⟩
        have hlen := congrArg List.length (Change.reported.inj he).2
        simp at hlen
    · exact .inr ⟨s, more, hs, rfl, hdue⟩

end

/-! ## Along a run -/

theorem dirs_cover {w : Watcher} {files : FileTree} {root p : Text} (h : p ∈ w.dirs) :
    p ∈ (w.cover files root).dirs := by
  rw [cover]
  split
  · exact h
  · split
    · exact h
    · exact mem_foldl_insertPath.mpr (.inl h)

theorem dirs_after {v : View} (c : Change) {p : Text} (h : p ∈ v.watcher.dirs) : p ∈ (v.after c).watcher.dirs := by
  cases c with
  | made place => exact h
  | reported r steps =>
      change p ∈ (v.watcher.handle v.files _).2.dirs
      rw [handle]
      split
      · dsimp only
        split
        · exact dirs_cover h
        · exact h
      · split <;> exact h

theorem dirs_run {v : View} {changes : List Change} {p : Text} (h : p ∈ v.watcher.dirs) :
    p ∈ (v.run changes).watcher.dirs := by
  induction changes generalizing v with
  | nil => exact h
  | cons c changes ih => exact ih (dirs_after c h)

namespace Faithful

variable {roots : List Text} {v : View} {changes : List Change}

theorem of_reported {files : FileTree} {r : Text} {steps : List Text} {rest : List Change}
    (h : Faithful roots files (.reported r steps :: rest)) :
    r ∈ roots ∧ ∃ home, files.resolve r = .ok home ∧ files.node? (home ++ steps) = some .directory := by
  cases h with
  | reported mem named there later => exact ⟨mem, _, named, there⟩

/-- What holds at every moment of a run: the files are in order, what was there still is, and all that is to come is
again faithful. -/
theorem run (before changes : List Change) (hr : Ready v.files roots) (h : Faithful roots v.files (before ++ changes)) :
    Ready (v.run before).files roots ∧ v.files.Shares (v.run before).files ∧
      Faithful roots (v.run before).files changes := by
  induction before generalizing v with
  | nil => exact ⟨hr, .refl _, h⟩
  | cons c before ih =>
      cases h with
      | made free told later =>
          obtain ⟨hready, hshares, hlater⟩ := ih (v := v.after (.made _)) (hr.made free) later
          exact ⟨hready, (FileTree.shares_put (by simp) free.absent .directory).trans hshares, hlater⟩
      | reported mem named there later => exact ih (v := v.after (.reported _ _)) hr later

/-- At the end of a run nothing is due. -/
theorem due (hr : Ready v.files roots) (hf : Faithful roots v.files changes) (h : Due roots v changes) :
    Due roots (v.run changes) [] := by
  induction changes generalizing v with
  | nil => exact h
  | cons c changes ih =>
      cases hf with
      | made free told later =>
          exact ih (v := v.after (.made _)) (hr.made free) later (due_made hr free told h)
      | reported mem named there later =>
          exact ih (v := v.after (.reported _ _)) hr later (due_reported hr mem named there h)

end Faithful

/-! ## What is covered beyond that -/

/-- A path that a walk from one of the roots comes by. -/
def Fresh (files : FileTree) (roots : List Text) (p : Text) : Prop := ∃ r ∈ roots, Covers files r p

theorem Fresh.below {files : FileTree} {roots : List Text} (hr : Ready files roots) {r : Text} (hroot : r ∈ roots)
    {home steps more : List Text} (h : Fresh files roots (Path.join (r :: steps))) (hhome : files.resolve r = .ok home)
    (hd : files.node? (home ++ (steps ++ more)) = some .directory) (hv : Visible more) :
    Fresh files roots (Path.join (r :: (steps ++ more))) := by
  obtain ⟨r', hmem, home', steps', hhome', hd', hv', he⟩ := h
  rw [← List.append_assoc] at hd
  have hsteps := hr.upright.directory_above hd
  -- The two roots lead to one place by one name.
  have hplace : home ++ steps = home' ++ steps' := by
    have h := hr.locate_join hroot hhome hsteps (.inl rfl)
    rw [he, hr.locate_join hmem hhome' hd' (.inl rfl)] at h
    exact (Except.ok.inj h).symm
  have hmore : ∀ s ∈ more, Path.IsName s := fun s hs => hr.upright.isName hd s (List.mem_append_right _ hs)
  refine ⟨r', hmem, home', steps' ++ more, hhome', ?_, ?_, ?_⟩
  · rwa [← List.append_assoc, ← hplace]
  · exact fun s hs => (List.mem_append.mp hs).elim (hv' s) (hv s)
  · rw [← join_join (ne_nil_of_resolve hhome) (fun s hs => hr.upright.isName hsteps s (List.mem_append_right _ hs))
        hmore, he,
      join_join (ne_nil_of_resolve hhome') (fun s hs => hr.upright.isName hd' s (List.mem_append_right _ hs)) hmore]

/-- A run covers nothing but what a walk comes by, unless a report makes it start at a hidden directory. -/
theorem Faithful.fresh {roots : List Text} {v : View} {changes : List Change} (hr : Ready v.files roots)
    (hf : Faithful roots v.files changes) (hstart : ∀ p ∈ v.watcher.dirs, Fresh (v.run changes).files roots p)
    (hhidden : ∀ before r steps name after, changes = before ++ .reported r (steps ++ [name]) :: after →
      Path.isHidden name = true → Path.join (r :: steps) ∈ (v.run before).watcher.dirs →
      Fresh (v.run changes).files roots (Path.join (r :: (steps ++ [name])))) :
    ∀ p ∈ (v.run changes).watcher.dirs, Fresh (v.run changes).files roots p := by
  induction changes generalizing v with
  | nil => exact hstart
  | cons c changes ih =>
      obtain ⟨hlast, hshares, -⟩ := Faithful.run (c :: changes) [] hr (by rwa [List.append_nil])
      have hlater : ∀ before r steps name after, changes = before ++ .reported r (steps ++ [name]) :: after →
          Path.isHidden name = true → Path.join (r :: steps) ∈ ((v.after c).run before).watcher.dirs →
          Fresh (v.run (c :: changes)).files roots (Path.join (r :: (steps ++ [name]))) :=
        fun before r steps name after he => hhidden (c :: before) r steps name after (by rw [he, List.cons_append])
      cases hf with
      | made free told later => exact ih (v := v.after (.made _)) (hr.made free) later hstart hlater
      | @reported _ r name home steps _ mem named there later =>
          refine ih (v := v.after (.reported _ _)) hr later (fun p hp => ?_) hlater
          rcases (hr.mem_after mem named there).mp hp with hin | ⟨hparent, hcovers⟩
          · exact hstart p hin
          · have hself : Fresh (v.run (.reported r (steps ++ [name]) :: changes)).files roots
                (Path.join (r :: (steps ++ [name]))) := by
              cases hname : Path.isHidden name with
              | true => exact hhidden [] r steps name changes rfl hname hparent
              | false =>
                  exact (hstart _ hparent).below hlast mem (hshares.resolve named) (hshares.directory there)
                    (by simpa [Visible] using hname)
            obtain ⟨more, hd, hv, rfl⟩ := (hr.covers_join mem named there (by simp)).mp hcovers
            exact hself.below hlast mem (hshares.resolve named) (hshares.directory hd) hv

/-- A watcher that is told of the directories made below its roots covers all that a watch started afresh covers. It
covers nothing else exactly if each hidden directory reported in a covered one is itself covered afresh, and then it
accepts only its targets and files that visible names lead to from a root. Of a directory the watcher knows the shortest
path only, so the roots are ones that theirs lead to. -/
theorem run_dirs_eq_fresh_iff {included excluded : List Text} {w : Watcher} (hw : new included excluded = .ok w)
    {files : FileTree} (ht : files.Placed) (hu : files.Upright) {roots : List Text}
    (hroots : (w.addAll files roots).1 = none) (hstraight : Straight files roots) {changes : List Change}
    (hf : Faithful roots files changes) :
    let start : View := ⟨files, (w.addAll files roots).2⟩
    let final := start.run changes
    let fresh := (w.addAll final.files roots).2
    (w.addAll final.files roots).1 = none ∧
    (∀ d ∈ fresh.dirs, d ∈ final.watcher.dirs) ∧
    ((∀ d, d ∈ final.watcher.dirs ↔ d ∈ fresh.dirs) ↔
      ∀ before r steps name after, changes = before ++ .reported r (steps ++ [name]) :: after →
        Path.isHidden name = true → Path.join (r :: steps) ∈ (start.run before).watcher.dirs →
        Path.join (r :: (steps ++ [name])) ∈ fresh.dirs) ∧
    ((∀ d, d ∈ final.watcher.dirs ↔ d ∈ fresh.dirs) → ∀ path, final.watcher.accepts path = true →
      Path.clean path ∈ final.watcher.targets ∨
        ∃ r ∈ roots, ∃ home steps, final.files.resolve r = .ok home ∧
          final.files.node? (home ++ steps) = some .directory ∧ (∀ s ∈ steps, Path.isHidden s = false) ∧
          Path.dir (Path.clean path) = Path.join (r :: steps)) := by
  intro start final fresh
  have hready : Ready start.files roots := ⟨ht, hu, addAll_reached.mp hroots, hstraight⟩
  obtain ⟨hlast, hshares, -⟩ := Faithful.run changes [] (v := start) hready (by rwa [List.append_nil])
  have hfresh (d : Text) : d ∈ fresh.dirs ↔ Fresh final.files roots d := by
    rw [mem_addAll hlast.upright hlast.reached, dirs_new hw]
    simp [Fresh, final]
  have hstart (d : Text) : d ∈ start.watcher.dirs ↔ Fresh files roots d := by
    rw [mem_addAll hu hready.reached, dirs_new hw]
    simp [Fresh]
  have hall : ∀ d ∈ fresh.dirs, d ∈ final.watcher.dirs := by
    have hdue := Faithful.due (v := start) hready hf fun r hr home steps hhome hd hv =>
      .inl ((hstart _).mpr ⟨r, hr, home, steps, hhome, hd, hv, rfl⟩)
    intro d hd
    obtain ⟨r, hr, home, steps, hhome, hplace, hv, rfl⟩ := (hfresh d).mp hd
    exact (hdue r hr home steps hhome hplace hv).resolve_right fun ⟨_, _, _, _, h⟩ => absurd h List.not_mem_nil
  refine ⟨addAll_reached.mpr hlast.reached, hall, ⟨fun he => ?_, fun hhidden d => ⟨fun hd => ?_, hall d⟩⟩,
    fun he path hp => ?_⟩
  -- What is reported below a covered directory is covered from then on, hidden or not.
  · intro before r steps name after hsplit _ hparent
    subst hsplit
    obtain ⟨hthen, -, hrest⟩ := Faithful.run before _ (v := start) hready hf
    obtain ⟨hmem, home, hhome, hplace⟩ := hrest.of_reported
    have hself := (hthen.covers_join hmem hhome hplace (by simp)).mpr
      ⟨[], by rwa [List.append_nil], nofun, by rw [List.append_nil]⟩
    refine (he _).mp ?_
    have hrun : final = ((start.run before).after (.reported r (steps ++ [name]))).run after := by
      simp only [final, View.run, List.foldl_append, List.foldl_cons]
    rw [hrun]
    exact dirs_run ((hthen.mem_after hmem hhome hplace).mpr (.inr ⟨hparent, hself⟩))
  · refine (hfresh d).mpr (Faithful.fresh (v := start) hready hf (fun p hp => ?_) ?_ d hd)
    · obtain ⟨r, hr, home, steps, hhome, hplace, hv, rfl⟩ := (hstart p).mp hp
      exact ⟨r, hr, home, steps, hshares.resolve hhome, hshares.directory hplace, hv, rfl⟩
    · intro before r steps name after hsplit hname hparent
      exact (hfresh _).mp (hhidden before r steps name after hsplit hname hparent)
  · rw [accepts, Bool.or_eq_true, Bool.and_eq_true, List.contains_iff_mem, List.contains_iff_mem] at hp
    refine hp.imp_right fun ⟨hd, _⟩ => ?_
    exact (hfresh _).mp ((he _).mp hd)

/-- A working directory with one directory in it. -/
def oneDirectory : FileTree := ⟨"/w", [(["d"], .directory)]⟩

theorem upright_oneDirectory : oneDirectory.Upright where
  distinct := by decide
  named e he := by
    rw [List.mem_singleton.mp he]
    exact ⟨by decide, fun s hs => List.mem_singleton.mp hs ▸ ⟨by decide, by decide, by decide, by decide⟩⟩
  parent e he := by
    rw [List.mem_singleton.mp he]
    rfl

theorem straight_oneDirectory : Straight oneDirectory ["d"] := by
  refine straight_of_unlinked (.inr ⟨rfl, rfl, by decide⟩) upright_oneDirectory fun r hr home hhome => ?_
  rw [List.mem_singleton.mp hr] at hhome ⊢
  exact ⟨["d"], rfl, hhome⟩

theorem faithful_making {name : Text} (hn : Path.IsName name) (habsent : oneDirectory.node? ["d", name] = none) :
    Faithful ["d"] oneDirectory [.made ["d", name], .reported "d" [name]] := by
  have hd : oneDirectory.resolve "d" = .ok ["d"] := rfl
  have hmade : (oneDirectory.put ["d", name] .directory).node? ["d", name] = some .directory := by
    rw [FileTree.node?_put (by simp), if_pos rfl]
  have hstill := (FileTree.shares_put (by simp) habsent .directory).resolve hd
  have hreport : Faithful ["d"] (oneDirectory.put ["d", name] .directory) [.reported "d" ([] ++ [name])] :=
    .reported (List.mem_singleton.mpr rfl) hstill hmade .nil
  change Faithful ["d"] oneDirectory [.made ((["d"] : List Text) ++ [name]), .reported "d" [name]]
  refine .made ⟨hn, rfl, habsent⟩ (fun r hr home steps hhome he => ?_) hreport
  rw [List.mem_singleton.mp hr] at hhome ⊢
  cases hd.symm.trans hhome
  rw [← List.append_cancel_left he]
  exact List.mem_singleton.mpr rfl

/-- A visible directory made below a root is covered, as a fresh watch covers it. -/
theorem visibleDirectory_covered :
    let watched := (View.run ⟨oneDirectory, ((⟨[], [], [], []⟩ : Watcher).addAll oneDirectory ["d"]).2⟩
      [.made ["d", "s"], .reported "d" ["s"]]).watcher
    watched.dirs = ["d", "d/s"] ∧
      ∀ d, d ∈ watched.dirs ↔
        d ∈ ((⟨[], [], [], []⟩ : Watcher).addAll (oneDirectory.put ["d", "s"] .directory) ["d"]).2.dirs := by
  have hw : new [] [] = .ok ⟨[], [], [], []⟩ := rfl
  have hname : Path.IsName "s" := ⟨by decide, by decide, by decide, by decide⟩
  have hroots : ((⟨[], [], [], []⟩ : Watcher).addAll oneDirectory ["d"]).1 = none := rfl
  obtain ⟨-, -, hiff, -⟩ := run_dirs_eq_fresh_iff hw (.inr ⟨rfl, rfl, by decide⟩) upright_oneDirectory hroots
    straight_oneDirectory (faithful_making hname rfl)
  refine ⟨rfl, hiff.mpr fun before r steps name after he hhidden _ => ?_⟩
  have hmem : Change.reported r (steps ++ [name]) ∈ [.made ["d", "s"], .reported "d" ["s"]] := by rw [he]; simp
  simp only [List.mem_cons, reduceCtorEq, Change.reported.injEq, List.not_mem_nil, or_false, false_or] at hmem
  have hs : name = "s" := by simpa using congrArg List.getLast? hmem.2
  subst hs
  cases hhidden

/-- A hidden directory made below a root is covered, though a fresh watch passes over it. -/
theorem hiddenDirectory_covered :
    (View.run ⟨oneDirectory, ((⟨[], [], [], []⟩ : Watcher).addAll oneDirectory ["d"]).2⟩
      [.made ["d", ".hid"], .reported "d" [".hid"]]).watcher.dirs = ["d", "d/.hid"] ∧
    ((⟨[], [], [], []⟩ : Watcher).addAll (oneDirectory.put ["d", ".hid"] .directory) ["d"]).2.dirs = ["d"] ∧
    (View.run ⟨oneDirectory, ((⟨[], [], [], []⟩ : Watcher).addAll oneDirectory ["d"]).2⟩
      [.made ["d", ".hid"], .reported "d" [".hid"]]).watcher.accepts "d/.hid/a.calc" = true := ⟨rfl, rfl, rfl⟩

end Watcher

end Abacus
