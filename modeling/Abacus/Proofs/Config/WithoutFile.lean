import Abacus.Config.Load
import Abacus.Proofs.FileTree

/-!
# A search that finds no file

A configuration that is read from a file is overridden, filled up with the defaults, trimmed and checked. Where no file
is found the defaults are overridden and checked, and what the overrides brought in is neither filled up nor trimmed.
So an empty file makes no difference exactly if no override needs filling or trimming.
-/

namespace Abacus.Config

/-! ## Settings that need no settling -/

/-- Neither blank nor to be trimmed. -/
def isPlain (t : Text) : Bool := !t.isBlank && t.trim == t

/-- Not empty, and all plain. -/
def allPlain (ts : List Text) : Bool := !ts.isEmpty && trimAll ts == ts

/-- Nothing is unset and nothing is to be trimmed. -/
def isSettled (c : Config) : Bool :=
  c.version ≠ 0 && 0 < c.engine.maxDepth &&
  (isPlain c.history.path && 0 < c.history.busyTimeout) &&
  (trimAll c.watch.paths == c.watch.paths && c.watch.debounce ≠ 0 && allPlain c.watch.included &&
    allPlain c.watch.excluded) &&
  (isPlain c.server.address && ¬ c.server.rateLimit ≤ 0 && 0 < c.server.burst && 0 < c.server.limiterTtl &&
    0 < c.server.maxBodySize) &&
  (c.observability.otlpEndpoint.trim == c.observability.otlpEndpoint && !c.observability.serviceName.isBlank)

theorem orPositive_eq_self_iff {d : Int} (hd : 0 < d) (n : Int) : orPositive n d = n ↔ 0 < n := by
  rw [orPositive]
  split <;> omega

theorem orOther_eq_self_iff {d z : Int} (hd : d ≠ z) (n : Int) : (if n = z then d else n) = n ↔ n ≠ z := by
  split
  · rename_i hn
    exact ⟨fun he => absurd (he.trans hn) hd, fun h => absurd hn h⟩
  · rename_i hn
    exact ⟨fun _ => hn, fun _ => rfl⟩

theorem orRate_eq_self_iff (x : Float) : (if x ≤ 0 then 20 else x) = x ↔ ¬ x ≤ 0 := by
  have h20 : ¬ (20 : Float) ≤ 0 := by decide +kernel
  split
  · rename_i hx
    exact ⟨fun he => absurd (he ▸ hx) h20, fun h => absurd hx h⟩
  · rename_i hx
    exact ⟨fun _ => hx, fun _ => rfl⟩

theorem orGiven_eq_self_iff {d : Text} (hd : d.isBlank = false) (t : Text) : orGiven t d = t ↔ t.isBlank = false := by
  rw [orGiven]
  split
  · rename_i ht
    refine ⟨?_, fun h => by cases ht.symm.trans h⟩
    rintro rfl
    exact hd
  · rename_i ht
    simpa using ht

theorem trim_orGiven_eq_self_iff {d : Text} (hd : isPlain d = true) (t : Text) :
    (orGiven t d).trim = t ↔ isPlain t = true := by
  have hd' : d.isBlank = false ∧ d.trim = d := by simpa [isPlain] using hd
  rw [orGiven]
  split
  · rename_i ht
    rw [hd'.2]
    refine ⟨?_, fun h => by simp [isPlain, ht] at h⟩
    rintro rfl
    exact hd
  · rename_i ht
    simp [isPlain, ht]

theorem trimAll_orSome_eq_self_iff {d : List Text} (hd : allPlain d = true) (ts : List Text) :
    trimAll (orSome ts d) = ts ↔ allPlain ts = true := by
  have hd' : d.isEmpty = false ∧ trimAll d = d := by simpa [allPlain] using hd
  rw [orSome]
  split
  · rename_i ht
    rw [hd'.2]
    refine ⟨?_, fun h => by simp [allPlain, ht] at h⟩
    rintro rfl
    exact hd
  · rename_i ht
    simp [allPlain, ht]

/-- The configurations that settling leaves alone. -/
theorem settle_eq_self_iff (c : Config) : c.withDefaults.normalize = c ↔ c.isSettled = true := by
  obtain ⟨version, ⟨maxDepth⟩, ⟨_, path, busyTimeout, _⟩, ⟨paths, debounce, included, excluded⟩,
    ⟨_, address, rateLimit, burst, limiterTtl, maxBodySize⟩, ⟨_, _, otlpEndpoint, serviceName⟩⟩ := c
  simp only [withDefaults, normalize, isSettled, mk.injEq, Engine.mk.injEq, History.mk.injEq, Watch.mk.injEq,
    Server.mk.injEq, Observability.mk.injEq, true_and, and_true, Bool.and_eq_true, decide_eq_true_eq, beq_iff_eq,
    Bool.not_eq_true',
    orOther_eq_self_iff (d := 1) (z := 0) (by decide) version,
    orPositive_eq_self_iff (d := Parser.defaultLimit) (by decide) maxDepth,
    trim_orGiven_eq_self_iff (d := "data/history.db") (by decide) path,
    orPositive_eq_self_iff (d := 2 * Duration.second) (by decide) busyTimeout,
    orOther_eq_self_iff (d := 300 * Duration.millisecond) (z := 0) (by decide) debounce,
    trimAll_orSome_eq_self_iff (d := ["*.calc", "*.txt"]) (by decide) included,
    trimAll_orSome_eq_self_iff (d := [".*", "*~"]) (by decide) excluded,
    trim_orGiven_eq_self_iff (d := "127.0.0.1:8787") (by decide) address,
    orRate_eq_self_iff rateLimit,
    orPositive_eq_self_iff (d := 40) (by decide) burst,
    orPositive_eq_self_iff (d := 5 * Duration.minute) (by decide) limiterTtl,
    orPositive_eq_self_iff (d := 65536) (by decide) maxBodySize,
    orGiven_eq_self_iff (d := "calcscript") (by decide) serviceName]
  simp only [and_assoc]

/-! ## Overrides -/

namespace Override

/-- The value that a variable overrides a setting with, if it does, satisfies `ok`. -/
def leaves {α : Type} (read : Text → Option α) (ok : α → Bool) (vars : Variables) (key : Text) : Bool :=
  ((vars.lookup key).bind read).all ok

/-- No override is replaced by a default or trimmed. -/
def settled (vars : Variables) : Bool :=
  leaves int? (0 < ·) vars "CALCSCRIPT_ENGINE_MAX_DEPTH" &&
  leaves some isPlain vars "CALCSCRIPT_HISTORY_PATH" &&
  leaves Duration.ofText? (· ≠ 0) vars "CALCSCRIPT_WATCH_DEBOUNCE" &&
  (leaves some isPlain vars "CALCSCRIPT_SERVER_ADDRESS" &&
    leaves float? (fun x => ¬ x ≤ 0) vars "CALCSCRIPT_SERVER_RATE_LIMIT" &&
    leaves int? (0 < ·) vars "CALCSCRIPT_SERVER_BURST") &&
  (leaves some (fun t => t.trim == t) vars "CALCSCRIPT_OBSERVABILITY_OTLP_ENDPOINT" &&
    leaves some (fun t => !t.isBlank) vars "CALCSCRIPT_OBSERVABILITY_SERVICE_NAME")

theorem text_eq_reading : text = reading some := by
  funext vars key old
  rw [text, reading]
  cases vars.lookup key <;> rfl

section
variable {α : Type} (read : Text → Option α) (vars : Variables) (key : Text)

theorem test_reading {p : α → Bool} {z : α} (hz : p z = true) :
    p (reading read vars key z) = leaves read p vars key := by
  unfold reading leaves
  cases (vars.lookup key).bind read with
  | none => exact hz
  | some x => rfl

/-- Filling up before an override, or only after it, comes to the same. -/
theorem fill_reading {f : α → α} {z : α} (hf : f (f z) = f z) :
    f (reading read vars key z) = f (reading read vars key (f z)) := by
  unfold reading
  cases (vars.lookup key).bind read with
  | none => exact hf.symm
  | some x => rfl

end

end Override

theorem isSettled_withOverrides (vars : Variables) :
    (default.withOverrides vars).isSettled = Override.settled vars := by
  have hdepth := Override.test_reading Override.int? vars "CALCSCRIPT_ENGINE_MAX_DEPTH" (p := (0 < ·))
    (z := default.engine.maxDepth) rfl
  have hpath := Override.test_reading some vars "CALCSCRIPT_HISTORY_PATH" (p := isPlain)
    (z := default.history.path) rfl
  have hdebounce := Override.test_reading Duration.ofText? vars "CALCSCRIPT_WATCH_DEBOUNCE" (p := (· ≠ 0))
    (z := default.watch.debounce) rfl
  have haddress := Override.test_reading some vars "CALCSCRIPT_SERVER_ADDRESS" (p := isPlain)
    (z := default.server.address) rfl
  have hrate := Override.test_reading Override.float? vars "CALCSCRIPT_SERVER_RATE_LIMIT" (p := fun x => ¬ x ≤ 0)
    (z := default.server.rateLimit) (by decide +kernel)
  have hburst := Override.test_reading Override.int? vars "CALCSCRIPT_SERVER_BURST" (p := (0 < ·))
    (z := default.server.burst) rfl
  have hendpoint := Override.test_reading some vars "CALCSCRIPT_OBSERVABILITY_OTLP_ENDPOINT"
    (p := fun t => t.trim == t) (z := default.observability.otlpEndpoint) rfl
  have hservice := Override.test_reading some vars "CALCSCRIPT_OBSERVABILITY_SERVICE_NAME" (p := fun t => !t.isBlank)
    (z := default.observability.serviceName) rfl
  -- The settings that nothing overrides have their defaults.
  have hversion : decide (default.version ≠ 0) = true := rfl
  have hbusy : decide (0 < default.history.busyTimeout) = true := rfl
  have hpaths : (trimAll default.watch.paths == default.watch.paths) = true := rfl
  have hpatterns : (allPlain default.watch.included && allPlain default.watch.excluded) = true := rfl
  have hlimits : (decide (0 < default.server.limiterTtl) && decide (0 < default.server.maxBodySize)) = true := rfl
  rw [Override.settled, ← hdepth, ← hpath, ← hdebounce, ← haddress, ← hrate, ← hburst, ← hendpoint, ← hservice]
  simp only [isSettled, withOverrides, Override.text_eq_reading, Override.int, Override.float, Override.duration,
    hversion, hbusy, hpaths, Bool.and_assoc, hpatterns, hlimits, Bool.true_and, Bool.and_true]

theorem withDefaults_withOverrides (vars : Variables) :
    (zero.withOverrides vars).withDefaults = (default.withOverrides vars).withDefaults := by
  have hdepth := Override.fill_reading Override.int? vars "CALCSCRIPT_ENGINE_MAX_DEPTH"
    (f := (orPositive · Parser.defaultLimit)) (z := 0) rfl
  have hpath := Override.fill_reading some vars "CALCSCRIPT_HISTORY_PATH"
    (f := (orGiven · "data/history.db")) (z := []) rfl
  have hdebounce := Override.fill_reading Duration.ofText? vars "CALCSCRIPT_WATCH_DEBOUNCE"
    (f := fun d => if d = 0 then 300 * Duration.millisecond else d) (z := 0) rfl
  have haddress := Override.fill_reading some vars "CALCSCRIPT_SERVER_ADDRESS"
    (f := (orGiven · "127.0.0.1:8787")) (z := []) rfl
  have hrate := Override.fill_reading Override.float? vars "CALCSCRIPT_SERVER_RATE_LIMIT"
    (f := fun x => if x ≤ 0 then 20 else x) (z := 0) ((orRate_eq_self_iff _).mpr (by decide +kernel))
  have hburst := Override.fill_reading Override.int? vars "CALCSCRIPT_SERVER_BURST"
    (f := (orPositive · 40)) (z := 0) rfl
  have hservice := Override.fill_reading some vars "CALCSCRIPT_OBSERVABILITY_SERVICE_NAME"
    (f := (orGiven · "calcscript")) (z := []) rfl
  simp only [withDefaults, withOverrides, default, zero, Override.text_eq_reading, Override.int, Override.bool,
    Override.float, Override.duration, hdepth, hpath, hdebounce, haddress, hrate, hburst, hservice]
  rfl

/-! ## What a new empty file changes -/

section
variable {files : FileTree} {place : List Text} (hp : place ≠ [])
include hp

theorem put_shares : (files.put place (.file [])).Shares files where
  cwd := rfl
  inner q n hn hq := by
    rw [FileTree.node?_put hp] at hq
    split at hq
    · cases hq
      exact absurd rfl (hn [])
    · exact hq

variable (free : files.node? place = none)
include free

/-- A lookup that does not end at the file is as it was. -/
theorem lookup_put_iff {p : Text} {q : List Text} {n : FileNode} (hq : q ≠ place) :
    (files.put place (.file [])).lookup p = .ok (q, n) ↔ files.lookup p = .ok (q, n) := by
  have hnode : (files.put place (.file [])).node? q = files.node? q := by rw [FileTree.node?_put hp, if_neg hq]
  constructor
  · intro h
    exact (put_shares hp).lookup h (hnode ▸ FileTree.node?_of_lookup h)
  · intro h
    exact (FileTree.shares_put hp free _).lookup h (hnode.trans (FileTree.node?_of_lookup h))

theorem isDirectory_put_iff {p : Text} {b : Bool}
    (apart : b = false → ∀ n, (files.put place (.file [])).lookup p ≠ .ok (place, n)) :
    (files.put place (.file [])).isDirectory p = .ok b ↔ files.isDirectory p = .ok b := by
  simp only [FileTree.isDirectory_eq_ok]
  refine exists_congr fun q => exists_congr fun n => ?_
  by_cases hq : q = place
  · subst hq
    constructor
    · rintro ⟨h, hb⟩
      have hn := FileTree.node?_of_lookup h
      rw [FileTree.node?_put hp, if_pos rfl] at hn
      cases hn
      exact absurd h (apart hb.symm _)
    · rintro ⟨h, _⟩
      cases free.symm.trans (FileTree.node?_of_lookup h)
  · rw [lookup_put_iff hp free hq]

theorem checkHistoryPath_put (c : Config)
    (apart : ∀ n, (files.put place (.file [])).lookup (Path.dir c.history.path) ≠ .ok (place, n)) :
    c.checkHistoryPath (files.put place (.file [])) = c.checkHistoryPath files := by
  have hpath := isDirectory_put_iff hp free (p := c.history.path) (b := true) (fun h => by cases h)
  have hparent := isDirectory_put_iff hp free (p := Path.dir c.history.path) (b := false) (fun _ => apart)
  unfold checkHistoryPath
  split
  · rfl
  · dsimp only
    congr 1
    · split
      · rename_i h
        rw [hpath.mp h]
      · rename_i h
        split
        · rename_i h'
          exact absurd (hpath.mpr h') h
        · rfl
    · split
      · rename_i h
        rw [hparent.mp h]
      · rename_i h
        split
        · rename_i h'
          exact absurd (hparent.mpr h') h
        · rfl

theorem checked_put {c : Config} (hw : c.watch.paths = [])
    (apart : ∀ n, (files.put place (.file [])).lookup (Path.dir c.history.path) ≠ .ok (place, n)) :
    checked (files.put place (.file [])) c = checked files c := by
  have hpaths (t : FileTree) : c.checkWatchPaths t = [] := by rw [checkWatchPaths, hw]; rfl
  rw [checked, checked, problems, problems, hpaths, hpaths, checkHistoryPath_put hp free c apart]

end

/-! ## The search -/

def fileName : Text := "calcscript.toml"

/-- The names that lead from the directory of the search to the first place where the file may stand. -/
def deepNames : List Text := ["data", "config", fileName]

theorem isName_deepNames : ∀ s ∈ deepNames, Path.IsName s := by
  intro s hs
  simp only [deepNames, List.mem_cons, List.not_mem_nil, or_false] at hs
  rcases hs with rfl | rfl | rfl <;> exact ⟨by decide, by decide, by decide, by decide⟩

theorem isName_fileName : ∀ s ∈ [fileName], Path.IsName s := fun s hs =>
  isName_deepNames s (by simp [deepNames, List.mem_singleton.mp hs])

theorem candidates_eq {cwd : Text} (hb : cwd.isBlank = false) :
    candidates cwd = .ok [Path.join (cwd :: deepNames), Path.join [cwd, fileName]] := by
  have hne : cwd ≠ [] := by rintro rfl; cases hb
  have hempty : cwd.isEmpty = false := by simpa using hne
  have hjoin : Path.join [cwd, "data/config/calcscript.toml"] = Path.join (cwd :: deepNames) := by
    have hshort : [cwd, ("data/config/calcscript.toml" : Text)].filter (!·.isEmpty) =
        [cwd, "data/config/calcscript.toml"] := by
      rw [List.filter_cons, hempty]
      rfl
    have hlong : (cwd :: deepNames).filter (!·.isEmpty) = cwd :: deepNames := by
      rw [List.filter_cons, hempty]
      rfl
    rw [Path.join, hshort, Path.join, hlong]
    change Path.clean (Text.join "/" _) = Path.clean (Text.join "/" _)
    rw [deepNames, Path.join_cons_cons, Path.join_cons_cons, Path.join_cons_cons, Path.join_cons_cons]
    rfl
  rw [candidates, if_neg (by simp [hb]), hjoin]
  rfl

/-- What becomes of a search. -/
def conclude (files : FileTree) (vars : Variables) : Option (Config × Text) → Except LoadError (Config × Option Text)
  | some (c, p) => .ok (c, some p)
  | none => (checked files (default.withOverrides vars)).map (·, none)

theorem discover_searchPath (files : FileTree) (vars : Variables) {cwd : Text} (hb : cwd.isBlank = false) :
    discover files vars searchPath cwd =
      (firstOf files vars [Path.join (cwd :: deepNames), Path.join [cwd, fileName]]).bind (conclude files vars) := by
  rw [discover, if_neg (by decide), candidates_eq hb]
  cases hf : firstOf files vars [Path.join (cwd :: deepNames), Path.join [cwd, fileName]] with
  | error e => simp [bind, Except.bind, hf]
  | ok found =>
      cases found with
      | some f => simp [bind, Except.bind, conclude, pure, Except.pure, hf]
      | none =>
          cases hc : checked files (default.withOverrides vars) <;>
            simp [bind, Except.bind, conclude, pure, Except.pure, Except.map, hf, hc]

theorem firstOf_of_error {files : FileTree} {vars : Variables} {p : Text} {e : LoadError}
    (h : load files vars p = .error e) (rest : List Text) :
    firstOf files vars (p :: rest) = if e.isNotFound then firstOf files vars rest else .error e := by rw [firstOf, h]

/-- A file with settings ends the search, whether they pass the check or not. -/
theorem firstOf_of_settle {files : FileTree} {vars : Variables} {p : Text} {c : Config}
    (h : load files vars p = settle files vars c) (rest : List Text) :
    firstOf files vars (p :: rest) = (settle files vars c).map fun c => some (c, p) := by
  rw [firstOf, h, settle, checked]
  split
  · rename_i heq
    split at heq
    · cases heq; rfl
    · cases heq
  · rename_i heq
    split at heq
    · cases heq
    · cases heq; rfl

/-- The tree with an empty file in a directory. -/
def withEmpty (files : FileTree) (home : List Text) : FileTree := files.put (home ++ [fileName]) (.file [])

theorem near_ne_nil (home : List Text) : home ++ [fileName] ≠ [] := by simp

/-- Neither of the files that are searched for is in the directory `home`, which `cwd` names; the first of them is
looked for in vain also once there is the other one. -/
structure Vacant (files : FileTree) (cwd : Text) (home : List Text) : Prop where
  placed : files.Placed
  named : files.locate true (Path.clean cwd) = .ok home
  directory : files.node? home = some .directory
  deep : ∃ e, files.lookup (Path.join (cwd :: deepNames)) = .error e ∧
    (withEmpty files home).lookup (Path.join (cwd :: deepNames)) = .error e
  near : files.node? (home ++ [fileName]) = none

section
variable {files : FileTree} {cwd : Text} {home : List Text} (hplaced : files.Placed)
  (hnamed : files.locate true (Path.clean cwd) = .ok home) (hdirectory : files.node? home = some .directory)
include hplaced hnamed hdirectory

/-- The directory is named, and all names lead on from it, in every tree with the directories of this one. -/
theorem locate_join {files' : FileTree} (h : files.Shares files') (hb : cwd ≠ []) :
    ∃ m, ∀ names, (∀ s ∈ names, Path.IsName s) →
      files'.locate true (Path.join (cwd :: names)) = files'.follow true m home names := by
  have hplaced' : files'.Placed := by
    rw [FileTree.Placed, h.cwd]
    exact hplaced
  have hnamed' := h.locate hnamed fun _ => (h.directory hdirectory).trans hdirectory.symm
  rw [Path.clean_eq] at hnamed'
  obtain ⟨m, hm⟩ := FileTree.locate_spell_append hplaced' (Path.isShortest_kept cwd) hnamed' (h.directory hdirectory)
  exact ⟨m, fun names hn => by rw [Path.join_eq_spell hb hn, hm true names hn (.inl rfl)]⟩

/-- Where there is no link on the way to the first of the files, it is enough that it is not there. -/
theorem vacant_of_absent (hb : cwd ≠ []) (hdeep : files.node? (home ++ deepNames) = none)
    (hlinks : ∀ k target, files.node? (home ++ deepNames.take k) ≠ some (.link target))
    (hnear : files.node? (home ++ [fileName]) = none) : Vacant files cwd home := by
  refine ⟨hplaced, hnamed, hdirectory, ?_, hnear⟩
  have hshares : files.Shares (withEmpty files home) := FileTree.shares_put (near_ne_nil home) hnear _
  obtain ⟨m, hout⟩ := locate_join hplaced hnamed hdirectory (.refl files) hb
  obtain ⟨m', hin⟩ := locate_join hplaced hnamed hdirectory hshares hb
  have hout := hout deepNames isName_deepNames
  have hin := hin deepNames isName_deepNames
  have hpass : ∀ k, home ++ deepNames.take k ≠ home ++ [fileName] := by
    have htake : ∀ k ≤ deepNames.length, deepNames.take k ≠ [fileName] := by decide
    intro k he
    rcases Nat.le_total k deepNames.length with hk | hk
    · exact htake k hk (List.append_cancel_left he)
    · exact htake _ le_rfl (List.append_cancel_left (by rwa [List.take_of_length_le hk] at he))
  rw [withEmpty, FileTree.follow_put isName_deepNames hlinks (near_ne_nil home) _ hpass m' m, ← hout] at hin
  cases hr : files.locate true (Path.join (cwd :: deepNames)) with
  | error e => exact ⟨e, FileTree.lookup_of_locate_error hr, FileTree.lookup_of_locate_error (hin.trans hr)⟩
  | ok q =>
      obtain rfl : q = home ++ deepNames :=
        FileTree.eq_append_of_follow isName_deepNames hlinks (hout.symm.trans hr)
      refine ⟨.notFound, FileTree.lookup_of_absent hr hdeep, FileTree.lookup_of_absent (hin.trans hr) ?_⟩
      rw [withEmpty, FileTree.node?_put (near_ne_nil home), if_neg (by simp [deepNames]), hdeep]

end

namespace Vacant

variable {files : FileTree} {cwd : Text} {home : List Text} (v : Vacant files cwd home)
include v

theorem shares : files.Shares (withEmpty files home) := FileTree.shares_put (near_ne_nil home) v.near _

theorem locate_near {files' : FileTree} (h : files.Shares files') (hb : cwd ≠ [])
    (hn : ∀ target, files'.node? (home ++ [fileName]) ≠ some (.link target)) :
    files'.locate true (Path.join [cwd, fileName]) = .ok (home ++ [fileName]) := by
  obtain ⟨m, hm⟩ := locate_join v.placed v.named v.directory h hb
  have hdown := FileTree.isDown_of_isName (isName_fileName fileName List.mem_cons_self)
  rw [hm [fileName] isName_fileName, FileTree.follow_down (h.directory v.directory) m [] hdown hn]
  exact FileTree.Way.here.follow_eq

theorem lookup_near (hb : cwd ≠ []) :
    files.lookup (Path.join [cwd, fileName]) = .error .notFound ∧
      (withEmpty files home).lookup (Path.join [cwd, fileName]) = .ok (home ++ [fileName], .file []) := by
  have hnode : (withEmpty files home).node? (home ++ [fileName]) = some (.file []) := by
    rw [withEmpty, FileTree.node?_put (near_ne_nil home), if_pos rfl]
  have hout := v.locate_near (.refl files) hb (by simp [v.near])
  have hin := v.locate_near v.shares hb (by simp [hnode])
  exact ⟨FileTree.lookup_of_absent hout v.near, FileTree.lookup_eq_ok_iff.mpr ⟨hin, hnode⟩⟩

/-- The two searches stop at the same error, or they go on to the overridden defaults and to the settings of the
empty file. -/
theorem discover_eq (vars : Variables) :
    (∃ e, discover files vars searchPath cwd = .error e ∧
      discover (withEmpty files home) vars searchPath cwd = .error e) ∨
    discover files vars searchPath cwd = (checked files (default.withOverrides vars)).map (·, none) ∧
      discover (withEmpty files home) vars searchPath cwd =
        (settle (withEmpty files home) vars zero).map (·, some (Path.join [cwd, fileName])) := by
  by_cases hb : cwd.isBlank = true
  · refine .inl ⟨.noDirectory, ?_, ?_⟩ <;> simp [discover, candidates, hb, bind, Except.bind]
  · have hb' : cwd.isBlank = false := by simpa using hb
    have hne : cwd ≠ [] := by rintro rfl; cases hb'
    obtain ⟨e, hout, hin⟩ := v.deep
    obtain ⟨hnone, hsome⟩ := v.lookup_near hne
    have hdeep : load files vars (Path.join (cwd :: deepNames)) =
        .error (.unreadable "open" (Path.join (cwd :: deepNames)) e) := by rw [load, FileTree.read, hout]
    have hdeep' : load (withEmpty files home) vars (Path.join (cwd :: deepNames)) =
        .error (.unreadable "open" (Path.join (cwd :: deepNames)) e) := by rw [load, FileTree.read, hin]
    have hnear : load files vars (Path.join [cwd, fileName]) =
        .error (.unreadable "open" (Path.join [cwd, fileName]) .notFound) := by rw [load, FileTree.read, hnone]
    have hnear' : load (withEmpty files home) vars (Path.join [cwd, fileName]) =
        settle (withEmpty files home) vars zero := by
      rw [load, FileTree.read, hsome]
      rfl
    rw [discover_searchPath _ _ hb', discover_searchPath _ _ hb']
    cases he : (LoadError.unreadable "open" (Path.join (cwd :: deepNames)) e).isNotFound with
    | false =>
        refine .inl ⟨.unreadable "open" (Path.join (cwd :: deepNames)) e, ?_, ?_⟩
        · rw [firstOf_of_error hdeep, he]
          rfl
        · rw [firstOf_of_error hdeep', he]
          rfl
    | true =>
        refine .inr ⟨?_, ?_⟩
        · rw [firstOf_of_error hdeep, he, if_pos rfl, firstOf_of_error hnear]
          rfl
        · rw [firstOf_of_error hdeep', he, if_pos rfl, firstOf_of_settle hnear']
          cases settle (withEmpty files home) vars zero <;> rfl

end Vacant

/-! ## The difference an empty file makes -/

theorem eq_of_checked {files : FileTree} {c c' : Config} (h : checked files c = .ok c') : c' = c := by
  rw [checked] at h
  split at h
  · exact (Except.ok.inj h).symm
  · cases h

theorem map_fst_map {p : Option Text} (r : Except LoadError Config) : (r.map (·, p)).map Prod.fst = r := by
  cases r <;> rfl

theorem map_eq_error {p : Option Text} {r : Except LoadError Config} {e : LoadError} :
    r.map (·, p) = .error e ↔ r = .error e := by
  cases r <;> simp [Except.map]

theorem map_eq_ok {p p' : Option Text} {r : Except LoadError Config} {c : Config}
    (h : r.map (·, p) = .ok (c, p')) : r = .ok c ∧ p' = p := by
  cases r with
  | error e => cases h
  | ok c' => cases h; exact ⟨rfl, rfl⟩

/-- A search that finds no file gives the same settings, or the same error, with and without an empty file exactly if no
override needs filling or trimming or both searches fail alike. The settings of the empty file are those found without
it, filled up and trimmed. -/
theorem discover_withEmpty_iff {files : FileTree} {cwd : Text} {home : List Text} (v : Vacant files cwd home)
    (vars : Variables)
    (apart : ∀ n, (withEmpty files home).lookup
      (Path.dir (default.withOverrides vars).withDefaults.normalize.history.path) ≠ .ok (home ++ [fileName], n)) :
    ((discover files vars searchPath cwd).map Prod.fst =
        (discover (withEmpty files home) vars searchPath cwd).map Prod.fst ↔
      Override.settled vars = true ∨ ∃ e, discover files vars searchPath cwd = .error e ∧
        discover (withEmpty files home) vars searchPath cwd = .error e) ∧
    (∀ c p, discover files vars searchPath cwd = .ok (c, p) → p = none ∧
      (discover (withEmpty files home) vars searchPath cwd).map Prod.fst = checked files c.withDefaults.normalize) ∧
    ∀ c p, discover (withEmpty files home) vars searchPath cwd = .ok (c, p) → p = some (Path.join [cwd, fileName]) := by
  have hsettle : settle (withEmpty files home) vars zero =
      checked files (default.withOverrides vars).withDefaults.normalize := by
    rw [settle, withDefaults_withOverrides]
    exact checked_put (near_ne_nil home) v.near rfl apart
  obtain ⟨e, hout, hin⟩ | ⟨hout, hin⟩ := v.discover_eq vars
  · rw [hout, hin]
    refine ⟨⟨fun _ => .inr ⟨e, rfl, rfl⟩, fun _ => rfl⟩, ?_, ?_⟩
    · intro c p h; cases h
    · intro c p h; cases h
  · rw [hsettle] at hin
    have hiff := settle_eq_self_iff (default.withOverrides vars)
    rw [isSettled_withOverrides] at hiff
    simp only [hout, hin, map_fst_map, map_eq_error]
    refine ⟨⟨fun h => ?_, ?_⟩, fun c p h => ?_, fun c p h => (map_eq_ok h).2⟩
    · cases hc : checked files (default.withOverrides vars) with
      | error e => exact .inr ⟨e, rfl, h.symm.trans hc⟩
      | ok c => exact .inl (hiff.mp ((eq_of_checked (h.symm.trans hc)).symm.trans (eq_of_checked hc)))
    · rintro (h | ⟨e, h, h'⟩)
      · rw [hiff.mpr h]
      · exact h.trans h'.symm
    · obtain ⟨hc, hp⟩ := map_eq_ok h
      exact ⟨hp, by rw [eq_of_checked hc]⟩

/-- A burst of seven is kept either way. -/
theorem burstOfSeven_unaffected :
    (discover (.empty "/w") [("CALCSCRIPT_SERVER_BURST", "7")] searchPath "/w").map Prod.fst =
      (discover (withEmpty (.empty "/w") []) [("CALCSCRIPT_SERVER_BURST", "7")] searchPath "/w").map Prod.fst := by
  have v : Vacant (.empty "/w") "/w" [] := by
    refine vacant_of_absent (.inr ⟨rfl, rfl, by decide⟩) rfl rfl (by decide) rfl (fun k target => ?_) rfl
    cases h : deepNames.take k <;> exact nofun
  have apart (n : FileNode) : (withEmpty (.empty "/w") []).lookup "data" ≠ .ok ([fileName], n) := nofun
  exact (discover_withEmpty_iff v [("CALCSCRIPT_SERVER_BURST", "7")] apart).1.mpr (.inl rfl)

/-- A burst of zero is replaced by the default only if there is a file. -/
theorem burstOfZero_affected :
    (discover (.empty "/w") [("CALCSCRIPT_SERVER_BURST", "0")] searchPath "/w").map (·.1.server.burst) = .ok 0 ∧
      (discover (withEmpty (.empty "/w") []) [("CALCSCRIPT_SERVER_BURST", "0")] searchPath "/w").map
        (·.1.server.burst) = .ok 40 := ⟨rfl, rfl⟩

end Abacus.Config
