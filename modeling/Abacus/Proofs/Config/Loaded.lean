import Abacus.Proofs.Config.WithoutFile
import Abacus.Proofs.Text.Runes

/-!
# Loaded configurations

The settings of a file are overridden, filled up with the defaults, trimmed and checked. Filling up and trimming once
more changes none of them, with one exception: trimming leaves nothing of a list of blank patterns, and by then the
defaults for missing patterns have had their turn.
-/

namespace Abacus.Config

/-! ## Trimming -/

theorem isBlank_trim (t : Text) : t.trim.isBlank = t.isBlank := by
  rw [Text.isBlank, Text.isBlank, Text.trim_trim]

theorem mem_trimAll {t : Text} {ts : List Text} : t ∈ trimAll ts ↔ ∃ s ∈ ts, s.isBlank = false ∧ s.trim = t := by
  simp only [trimAll, List.mem_filter, List.mem_map, Text.isBlank, Bool.not_eq_true']
  constructor
  · rintro ⟨⟨s, hs, rfl⟩, hne⟩
    exact ⟨s, hs, hne, rfl⟩
  · rintro ⟨s, hs, hne, rfl⟩
    exact ⟨⟨s, hs, rfl⟩, hne⟩

theorem trimAll_trimAll (ts : List Text) : trimAll (trimAll ts) = trimAll ts := by
  have htrim : (trimAll ts).map Text.trim = trimAll ts := by
    refine (List.map_congr_left fun t ht => ?_).trans (List.map_id _)
    obtain ⟨s, -, -, rfl⟩ := mem_trimAll.mp ht
    exact Text.trim_trim s
  rw [trimAll, htrim, trimAll, List.filter_filter]
  simp only [Bool.and_self]

theorem normalize_normalize (c : Config) : c.normalize.normalize = c.normalize := by
  simp only [normalize, Text.trim_trim, trimAll_trimAll]

/-- A list that is not empty and holds nothing but blank texts. -/
def isHollow (ts : List Text) : Bool := !ts.isEmpty && ts.all Text.isBlank

theorem trimAll_eq_nil_iff {ts : List Text} : trimAll ts = [] ↔ ∀ t ∈ ts, t.isBlank = true := by
  simp only [List.eq_nil_iff_forall_not_mem, mem_trimAll]
  constructor
  · intro h t ht
    by_contra hb
    exact h t.trim ⟨t, ht, by simpa using hb, rfl⟩
  · rintro h _ ⟨t, ht, hb, rfl⟩
    cases (h t ht).symm.trans hb

/-- Nothing is left of a list, filled up and trimmed, exactly if it was hollow. -/
theorem trimAll_orSome_eq_nil_iff {d : List Text} (hd : allPlain d = true) {ts : List Text} :
    trimAll (orSome ts d) = [] ↔ isHollow ts = true := by
  obtain ⟨hne, htrim⟩ : d ≠ [] ∧ trimAll d = d := by simpa [allPlain] using hd
  rw [orSome]
  cases ts with
  | nil => exact iff_of_false (fun h => hne (htrim.symm.trans h)) Bool.false_ne_true
  | cons t ts =>
      rw [if_neg (by simp), trimAll_eq_nil_iff]
      simp [isHollow]

theorem trimAll_orSome {d : List Text} (hd : allPlain d = true) (ts : List Text) :
    trimAll (orSome ts d) = if isHollow ts then [] else if ts.isEmpty then d else trimAll ts := by
  split
  · exact (trimAll_orSome_eq_nil_iff hd).mpr ‹_›
  · rw [orSome]
    split
    · simpa [allPlain] using (Bool.and_eq_true_iff.mp hd).2
    · rfl

/-! ## Filling up -/

theorem orPositive_orPositive {d : Int} (hd : 0 < d) (n : Int) : orPositive (orPositive n d) d = orPositive n d := by
  rw [orPositive_eq_self_iff hd, orPositive]
  split <;> omega

theorem orOther_orOther {d z : Int} (hd : d ≠ z) (n : Int) :
    (if (if n = z then d else n) = z then d else if n = z then d else n) = if n = z then d else n := by
  rw [orOther_eq_self_iff hd]
  split <;> assumption

theorem orRate_orRate (x : Float) :
    (if (if x ≤ 0 then 20 else x) ≤ 0 then 20 else if x ≤ 0 then 20 else x) = if x ≤ 0 then 20 else x := by
  rw [orRate_eq_self_iff]
  split
  · decide +kernel
  · assumption

theorem isBlank_orGiven {d : Text} (hd : d.isBlank = false) (t : Text) : (orGiven t d).isBlank = false := by
  rw [orGiven]
  split
  · exact hd
  · rename_i ht
    simpa using ht

theorem orGiven_orGiven {d : Text} (hd : d.isBlank = false) (t : Text) : orGiven (orGiven t d) d = orGiven t d :=
  (orGiven_eq_self_iff hd _).mpr (isBlank_orGiven hd t)

theorem orGiven_trim_orGiven {d : Text} (hd : d.isBlank = false) (t : Text) :
    orGiven (orGiven t d).trim d = (orGiven t d).trim :=
  (orGiven_eq_self_iff hd _).mpr ((isBlank_trim _).trans (isBlank_orGiven hd t))

/-- Settings that were filled up and trimmed are filled up again in two places at most. -/
theorem withDefaults_normalize_withDefaults (c : Config) :
    c.withDefaults.normalize.withDefaults =
      { c.withDefaults.normalize with
        watch :=
          { c.withDefaults.normalize.watch with
            included := orSome c.withDefaults.normalize.watch.included default.watch.included
            excluded := orSome c.withDefaults.normalize.watch.excluded default.watch.excluded } } := by
  simp only [withDefaults, normalize, mk.injEq, Watch.mk.injEq, Server.mk.injEq, true_and, and_true,
    orPositive_orPositive (d := Parser.defaultLimit) (by decide),
    orPositive_orPositive (d := 2 * Duration.second) (by decide),
    orPositive_orPositive (d := 5 * Duration.minute) (by decide),
    orPositive_orPositive (d := 40) (by decide),
    orPositive_orPositive (d := 65536) (by decide),
    orGiven_trim_orGiven (d := "data/history.db") (by decide),
    orGiven_trim_orGiven (d := "127.0.0.1:8787") (by decide),
    orGiven_orGiven (d := "calcscript") (by decide)]
  exact ⟨orOther_orOther (by decide) _, ⟨orOther_orOther (by decide) _, rfl, rfl⟩, orRate_orRate _⟩

theorem orSome_eq_self_iff {d : List Text} (hd : d ≠ []) {ts : List Text} : orSome ts d = ts ↔ ts ≠ [] := by
  rw [orSome]
  cases ts with
  | nil => exact iff_of_false hd fun h => h rfl
  | cons t ts => exact iff_of_true rfl (List.cons_ne_nil t ts)

theorem withDefaults_eq_self_iff (c : Config) :
    c.withDefaults.normalize.withDefaults = c.withDefaults.normalize ↔
      isHollow c.watch.included = false ∧ isHollow c.watch.excluded = false := by
  have hincluded : c.withDefaults.normalize.watch.included = [] ↔ isHollow c.watch.included = true :=
    trimAll_orSome_eq_nil_iff (by decide)
  have hexcluded : c.withDefaults.normalize.watch.excluded = [] ↔ isHollow c.watch.excluded = true :=
    trimAll_orSome_eq_nil_iff (by decide)
  rw [withDefaults_normalize_withDefaults, ← Bool.not_eq_true, ← Bool.not_eq_true, ← hincluded, ← hexcluded]
  generalize c.withDefaults.normalize = s
  obtain ⟨version, engine, history, ⟨paths, debounce, included, excluded⟩, server, observability⟩ := s
  simp only [mk.injEq, Watch.mk.injEq, true_and, and_true]
  rw [orSome_eq_self_iff (by decide), orSome_eq_self_iff (by decide)]

theorem trim_orGiven_of_blank {d : Text} (hd : d.trim = d) {t : Text} (ht : t.isBlank = true) :
    (orGiven t d).trim = d := by
  rw [orGiven, if_pos ht, hd]

theorem blank_texts_replaced (c : Config) :
    (c.history.path.isBlank = true → c.withDefaults.normalize.history.path = default.history.path) ∧
    (c.server.address.isBlank = true → c.withDefaults.normalize.server.address = default.server.address) ∧
    (c.observability.serviceName.isBlank = true →
      c.withDefaults.normalize.observability.serviceName = default.observability.serviceName) := by
  refine ⟨fun hb => ?_, fun hb => ?_, fun hb => if_pos hb⟩
  · simp only [normalize, withDefaults, trim_orGiven_of_blank (d := "data/history.db") (by decide) hb]
    rfl
  · simp only [normalize, withDefaults, trim_orGiven_of_blank (d := "127.0.0.1:8787") (by decide) hb]
    rfl

/-! ## Loading -/

/-- The file at a path holds a document of known keys, with these settings. -/
def Decodes (files : FileTree) (path : Text) (d : Config) : Prop :=
  ∃ t doc, files.read path = .ok t ∧ Toml.document? t = some doc ∧ doc.keys.find? (!isKnown ·) = none ∧
    ofEntries? doc.entries = some d

theorem load_eq_ok_iff {files : FileTree} {vars : Variables} {path : Text} {c : Config} :
    load files vars path = .ok c ↔ ∃ d, Decodes files path d ∧ settle files vars d = .ok c := by
  constructor
  · intro h
    simp only [load, ofText] at h
    split at h
    · cases h
    · rename_i t ht
      split at h
      · cases h
      · rename_i doc hdoc
        split at h
        · cases h
        · rename_i d hd
          split at h
          · cases h
          · rename_i hkeys
            exact ⟨d, ⟨t, doc, ht, hdoc, hkeys, hd⟩, h⟩
  · rintro ⟨d, ⟨t, doc, ht, hdoc, hkeys, hd⟩, h⟩
    simp only [load, ofText, ht, hdoc, hkeys, hd, h]

theorem checked_eq_ok_iff {files : FileTree} {c c' : Config} :
    checked files c = .ok c' ↔ c = c' ∧ c.problems files = [] := by
  rw [checked]
  cases c.problems files with
  | nil => simp
  | cons m ms => simp

/-- What loading gives is trimmed and free of problems, and a text that was blank has its default. Filling it up once
more changes nothing but empty lists of patterns. A list is empty, then, exactly if it was hollow in the file; one that
was missing or empty has its default. -/
theorem load_settles {files : FileTree} {vars : Variables} {path : Text} {c : Config}
    (h : load files vars path = .ok c) :
    ∃ d, Decodes files path d ∧ c.normalize = c ∧ c.problems files = [] ∧
      (c.withDefaults = c ↔ isHollow d.watch.included = false ∧ isHollow d.watch.excluded = false) ∧
      c.withDefaults =
        { c with
          watch :=
            { c.watch with
              included := orSome c.watch.included default.watch.included
              excluded := orSome c.watch.excluded default.watch.excluded } } ∧
      (c.watch.included = if isHollow d.watch.included then [] else
        if d.watch.included.isEmpty then default.watch.included else trimAll d.watch.included) ∧
      (c.watch.excluded = if isHollow d.watch.excluded then [] else
        if d.watch.excluded.isEmpty then default.watch.excluded else trimAll d.watch.excluded) ∧
      let given := d.withOverrides vars
      (given.history.path.isBlank = true → c.history.path = default.history.path) ∧
      (given.server.address.isBlank = true → c.server.address = default.server.address) ∧
      (given.observability.serviceName.isBlank = true →
        c.observability.serviceName = default.observability.serviceName) := by
  obtain ⟨d, hd, hsettle⟩ := load_eq_ok_iff.mp h
  obtain ⟨rfl, hproblems⟩ := checked_eq_ok_iff.mp hsettle
  exact ⟨d, hd, normalize_normalize _, hproblems, withDefaults_eq_self_iff _, withDefaults_normalize_withDefaults _,
    trimAll_orSome (d := ["*.calc", "*.txt"]) (by decide) d.watch.included,
    trimAll_orSome (d := [".*", "*~"]) (by decide) d.watch.excluded, blank_texts_replaced (d.withOverrides vars)⟩

/-- A path that is blank, a pattern and an address with blanks around them, and a burst below zero. -/
def unsettledFile : FileTree :=
  ⟨[], [(["calcscript.toml"], .file
    "[history]\npath = \"  \"\n[watch]\ninclude = [\" *.calc \", \"\"]\n[server]\nburst = -1\naddress = \" h:1 \"\n")]⟩

theorem unsettledFile_settled :
    ∃ c, load unsettledFile [] "calcscript.toml" = .ok c ∧ c.normalize = c ∧ c.withDefaults = c ∧
      c.problems unsettledFile = [] ∧ c.watch.included = ["*.calc"] ∧ c.history.path = default.history.path ∧
      c.server.burst = default.server.burst ∧ c.server.address = "h:1" := by
  have hloaded : ((load unsettledFile [] "calcscript.toml").toOption.map fun c =>
      (c.watch.included, c.watch.excluded, c.history.path, c.server.burst, c.server.address)) =
      some ((["*.calc"] : List Text), default.watch.excluded, default.history.path, default.server.burst,
        ("h:1" : Text)) := by
    decide +kernel
  cases hload : load unsettledFile [] "calcscript.toml" with
  | error e => simp [hload, Except.toOption] at hloaded
  | ok c =>
      simp only [hload, Except.toOption, Option.map_some, Option.some.injEq, Prod.mk.injEq] at hloaded
      obtain ⟨hincluded, hexcluded, hpath, hburst, haddress⟩ := hloaded
      obtain ⟨d, -, hnormal, hproblems, -, hfilled, -⟩ := load_settles hload
      refine ⟨c, rfl, hnormal, ?_, hproblems, hincluded, hpath, hburst, haddress⟩
      rw [hfilled, (orSome_eq_self_iff (by decide)).mpr (hincluded ▸ List.cons_ne_nil _ _),
        (orSome_eq_self_iff (by decide)).mpr (hexcluded ▸ List.cons_ne_nil _ _)]

/-- A list of one blank pattern is left empty, and would be filled up. -/
theorem blankPattern_left_empty :
    let files : FileTree := ⟨[], [(["calcscript.toml"], .file "[watch]\ninclude = [\" \"]\n")]⟩
    ((load files [] "calcscript.toml").toOption.map fun c => (c.watch.included, c.withDefaults.watch.included)) =
      some (([], ["*.calc", "*.txt"]) : List Text × List Text) := by
  decide +kernel

end Abacus.Config
