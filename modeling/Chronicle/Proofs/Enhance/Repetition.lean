import Chronicle.Proofs.Enhance.Marks
import Chronicle.Proofs.Sample.Sources
import Mathlib.Data.List.Perm.Basic

/-!
# Enhancing again

A program is left alone just if all its classes have the mark. So a second run leaves what a first run
wrote alone just if that run set the marks where they are looked for.
-/

namespace Chronicle

namespace Enhance

open Source

/-! ## Scopes with marks only -/

/-- The names of the classes of a scope. -/
def Scope.classNames (s : Scope) : List String :=
  (s.classes.toOption.getD []).map EntityClass.displayName

/-- Whether all classes of a scope are enhanced. -/
def Scope.Marked (s : Scope) : Prop :=
  ∃ classes, s.classes = .ok classes ∧ ∀ c ∈ classes, c.options.settersEnhanced = true

variable {naming : Naming}

theorem fresh_eq_nil_iff {classes : List EntityClass} :
    fresh classes = [] ↔ ∀ c ∈ classes, c.options.settersEnhanced = true := by
  simp [fresh, List.filter_eq_nil_iff]

theorem Scope.Marked.enhancesTo_iff {s : Scope} (h : s.Marked) (naming : Naming)
    {outcome : Scope × Report} :
    s.EnhancesTo naming outcome ↔ outcome = (s, ⟨[], s.classNames⟩) := by
  obtain ⟨classes, hclasses, hmarked⟩ := h
  have hfresh : fresh classes = [] := fresh_eq_nil_iff.mpr hmarked
  have hitems : enhancedItems naming classes s.items = s.items := by
    rw [enhancedItems, hfresh, List.map_nil, rewriteItem_nil, List.map_id, withMarks_nil]
  have hreport : reportOf (fun c => wrappedFields (verdictsAmong naming s.items c)) classes =
      ⟨[], s.classNames⟩ := by
    have hall : classes.filter (·.options.settersEnhanced) = classes :=
      List.filter_eq_self.mpr hmarked
    rw [reportOf, hfresh, hall, Scope.classNames, hclasses]
    rfl
  have hfault : firstFault? naming classes s.items = none := by
    rw [firstFault?, hfresh]
    rfl
  rw [Scope.enhancesTo_iff]
  constructor
  · rintro ⟨_, hread, -, rfl⟩
    cases hclasses.symm.trans hread
    rw [hitems, hreport]
  · rintro rfl
    exact ⟨classes, hclasses, hfault, by rw [hitems, hreport]⟩

/-- Nothing is enhanced just in scopes with marks only. -/
theorem Scope.EnhancesTo.marked_iff {s : Scope} {outcome : Scope × Report}
    (h : s.EnhancesTo naming outcome) : s.Marked ↔ outcome.2.enhanced = [] := by
  constructor
  · intro hmarked
    rw [(hmarked.enhancesTo_iff naming).mp h]
  · intro hnone
    obtain ⟨classes, hclasses, -, rfl⟩ := Scope.enhancesTo_iff.mp h
    have hfresh : fresh classes = [] := by simpa [reportOf] using hnone
    exact ⟨classes, hclasses, fresh_eq_nil_iff.mp hfresh⟩

theorem Scope.EnhancesTo.marked_after_iff {s : Scope} {outcome : Scope × Report}
    (h : s.EnhancesTo naming outcome) : outcome.1.Marked ↔ KeepsMarks s.items := by
  obtain ⟨classes, hclasses, -, rfl⟩ := Scope.enhancesTo_iff.mp h
  obtain ⟨after, hafter, -, hmarked⟩ := classesOf_enhancedItems naming hclasses
  rw [← hmarked]
  constructor
  · rintro ⟨_, hread, hall⟩
    cases hafter.symm.trans hread
    exact hall
  · intro hall
    exact ⟨after, hafter, hall⟩

/-- Each class of a scope is reported, as enhanced or as skipped. -/
theorem Scope.EnhancesTo.classNames_perm {s : Scope} {outcome : Scope × Report}
    (h : s.EnhancesTo naming outcome) :
    outcome.1.classNames.Perm (outcome.2.enhanced.map Prod.fst ++ outcome.2.skipped) := by
  obtain ⟨classes, hclasses, -, rfl⟩ := Scope.enhancesTo_iff.mp h
  obtain ⟨after, hafter, hnames, -⟩ := classesOf_enhancedItems naming hclasses
  have hbefore : Scope.classNames ⟨s.path, enhancedItems naming classes s.items⟩ =
      classes.map EntityClass.displayName := by
    rw [Scope.classNames, Scope.classes, hafter, ← hnames]
    rfl
  have hfirst : (fresh classes).map (Prod.fst ∘ fun c : EntityClass =>
      (c.displayName, wrappedFields (verdictsAmong naming s.items c))) =
      (fresh classes).map EntityClass.displayName := rfl
  rw [hbefore, reportOf, List.map_map, hfirst, ← List.map_append]
  apply List.Perm.map
  have hsplit := List.filter_append_perm (fun c : EntityClass => c.options.settersEnhanced) classes
  exact hsplit.symm.trans List.perm_append_comm

/-! ## Programs with marks only -/

/-- The names of all classes of a program. -/
def classNames (p : Program) : List String := (scopes p).flatMap Scope.classNames

theorem forall₂_marked {before : List Scope} {outcomes : List (Scope × Report)}
    (hmarked : ∀ s ∈ before, s.Marked)
    (h : List.Forall₂ (Scope.EnhancesTo naming) before outcomes) :
    outcomes = before.map fun s => (s, ⟨[], s.classNames⟩) := by
  induction h with
  | nil => rfl
  | cons hfirst _ ih =>
      obtain ⟨hmark, hrest⟩ := List.forall_mem_cons.mp hmarked
      rw [List.map_cons, (hmark.enhancesTo_iff naming).mp hfirst, ih hrest]

/-- A program with marks only is left alone. -/
theorem enhanceProgram_marked (naming : Naming) {p : Program} (h : ∀ s ∈ scopes p, s.Marked) :
    (enhanceProgram naming p).result = .ok (p, ⟨[], classNames p⟩) := by
  have hfault : (scopes p).findSome? (Scope.fault? naming) = none := by
    rw [List.findSome?_eq_none_iff]
    intro s hs
    have hown : s.EnhancesTo naming (s, ⟨[], s.classNames⟩) := ((h s hs).enhancesTo_iff naming).mpr rfl
    exact fault?_eq_none_iff.mpr ⟨_, hown.2⟩
  rw [← fault?_enhanceProgram] at hfault
  obtain ⟨⟨q, report⟩, hrun⟩ := fault?_eq_none_iff.mp hfault
  obtain ⟨hattributes, outcomes, hall, hscopes, rfl⟩ := enhanceProgram_scopes hrun
  obtain rfl := forall₂_marked h hall
  have hsame : scopes q = scopes p := by
    rw [hscopes, List.map_map]
    exact List.map_id _
  rw [hrun, eq_of_scopes hattributes hsame]
  simp [Report.concat, classNames, List.flatMap_map]

theorem forall_mem_iff_of_forall₂ {α β : Type} {R : α → β → Prop} {P : α → Prop} {Q : β → Prop}
    (hiff : ∀ a b, R a b → (P a ↔ Q b)) {before : List α} {after : List β}
    (h : List.Forall₂ R before after) : (∀ a ∈ before, P a) ↔ ∀ b ∈ after, Q b := by
  induction h with
  | nil => simp
  | cons hfirst _ ih => rw [List.forall_mem_cons, List.forall_mem_cons, hiff _ _ hfirst, ih]

/-- Nothing is enhanced just in programs with marks only. -/
theorem enhanceProgram_marked_iff {p q : Program} {report : Report}
    (h : (enhanceProgram naming p).result = .ok (q, report)) :
    (∀ s ∈ scopes p, s.Marked) ↔ report.enhanced = [] := by
  obtain ⟨-, outcomes, hall, -, rfl⟩ := enhanceProgram_scopes h
  rw [forall_mem_iff_of_forall₂ (fun _ _ hscope => hscope.marked_iff) hall, Report.concat]
  exact (List.flatMap_eq_nil_iff.trans List.forall_mem_map).symm

theorem enhanceProgram_marked_after_iff {p q : Program} {report : Report}
    (h : (enhanceProgram naming p).result = .ok (q, report)) :
    (∀ s ∈ scopes q, s.Marked) ↔ ∀ s ∈ scopes p, KeepsMarks s.items := by
  obtain ⟨-, outcomes, hall, hscopes, -⟩ := enhanceProgram_scopes h
  rw [hscopes, List.forall_mem_map]
  exact (forall_mem_iff_of_forall₂ (fun _ _ hscope => hscope.marked_after_iff.symm) hall).symm

theorem classNames_perm {p q : Program} {report : Report}
    (h : (enhanceProgram naming p).result = .ok (q, report)) :
    (classNames q).Perm (report.enhanced.map Prod.fst ++ report.skipped) := by
  obtain ⟨-, outcomes, hall, hscopes, rfl⟩ := enhanceProgram_scopes h
  have hnames : ∀ outcome ∈ outcomes, outcome.1.classNames.Perm
      (outcome.2.enhanced.map Prod.fst ++ outcome.2.skipped) :=
    (forall_mem_iff_of_forall₂ (P := fun _ => True)
      (fun _ _ hscope => iff_of_true trivial hscope.classNames_perm) hall).mp fun _ _ => trivial
  have hconcat : (Report.concat (outcomes.map Prod.snd)).enhanced.map Prod.fst ++
      (Report.concat (outcomes.map Prod.snd)).skipped =
      outcomes.flatMap (fun outcome => outcome.2.enhanced.map Prod.fst) ++
        outcomes.flatMap fun outcome => outcome.2.skipped := by
    simp [Report.concat, List.map_flatMap, List.flatMap_map]
  rw [classNames, hscopes, hconcat, List.flatMap_map]
  exact (List.Perm.flatMap_left _ hnames).trans (List.flatMap_append_perm _ _ _).symm

/-! ## A second run -/

/-- Whether a run over a program leaves it alone and skips the classes that a report names. -/
def LeavesAlone (naming : Naming) (p : Program) (report : Report) : Prop :=
  ∃ skipped : List String, skipped.Perm (report.enhanced.map Prod.fst ++ report.skipped) ∧
    (enhanceProgram naming p).result = .ok (p, ⟨[], skipped⟩)

/-- The same for a run over a text. -/
def LeavesTextAlone (naming : Naming) (text origin : String) (report : Report) : Prop :=
  ∃ skipped : List String, skipped.Perm (report.enhanced.map Prod.fst ++ report.skipped) ∧
    (enhanceText naming text origin).result = .ok (text, ⟨[], skipped⟩)

/-- Whether a program and another one have the same text and the same classes. -/
structure SameText (p q : Program) : Prop where
  text : p.text = q.text
  classes : (scopes p).map Scope.classes = (scopes q).map Scope.classes

theorem leavesAlone_iff {p q : Program} {report : Report}
    (h : (enhanceProgram naming p).result = .ok (q, report)) :
    LeavesAlone naming q report ↔ ∀ s ∈ scopes p, KeepsMarks s.items := by
  rw [← enhanceProgram_marked_after_iff h]
  constructor
  · rintro ⟨skipped, -, hagain⟩
    exact (enhanceProgram_marked_iff hagain).mpr rfl
  · intro hmarked
    exact ⟨classNames q, classNames_perm h, enhanceProgram_marked naming hmarked⟩

theorem SameText.marked_iff {p q : Program} (h : SameText p q) :
    (∀ s ∈ scopes p, s.Marked) ↔ ∀ s ∈ scopes q, s.Marked := by
  have hclasses : ∀ r : Program, (∀ s ∈ scopes r, s.Marked) ↔
      ∀ read ∈ (scopes r).map Scope.classes,
        ∃ classes, read = .ok classes ∧ ∀ c ∈ classes, c.options.settersEnhanced = true := by
    intro r
    rw [List.forall_mem_map]
    rfl
  rw [hclasses p, hclasses q, h.classes]

theorem SameText.classNames_eq {p q : Program} (h : SameText p q) : classNames p = classNames q := by
  have hnames : ∀ r : Program, classNames r = ((scopes r).map Scope.classes).flatMap fun read =>
      (read.toOption.getD []).map EntityClass.displayName := by
    intro r
    rw [List.flatMap_map]
    rfl
  rw [hnames p, hnames q, h.classes]

/-- A second run leaves what a first run wrote alone just if no struct with the name of an entity
without the mark stands after that entity. -/
theorem second_run_leaves_alone_iff {source origin output : String} {report : Report}
    (h : (enhanceText naming source origin).result = .ok (output, report)) :
    ∃ program enhanced, Program.ofText? source = some program ∧
      (enhanceProgram naming program).result = .ok (enhanced, report) ∧ output = enhanced.text ∧
      (LeavesAlone naming enhanced report ↔ ∀ s ∈ scopes program, KeepsMarks s.items) ∧
      ∀ again, Program.ofText? output = some again → SameText again enhanced →
        (LeavesTextAlone naming output origin report ↔ ∀ s ∈ scopes program, KeepsMarks s.items) := by
  obtain ⟨program, enhanced, hsource, hrun, rfl⟩ := enhanceText_eq_ok.mp h
  refine ⟨program, enhanced, hsource, hrun, rfl, leavesAlone_iff hrun, ?_⟩
  intro again hagain hsame
  rw [← enhanceProgram_marked_after_iff hrun, ← hsame.marked_iff]
  constructor
  · rintro ⟨skipped, -, htext⟩
    obtain ⟨_, after, hread, hafter, -⟩ := enhanceText_eq_ok.mp htext
    cases hagain.symm.trans hread
    exact (enhanceProgram_marked_iff hafter).mpr rfl
  · intro hmarked
    refine ⟨classNames again, ?_, ?_⟩
    · rw [hsame.classNames_eq]
      exact classNames_perm hrun
    · have hskip := enhanceProgram_marked naming hmarked
      exact enhanceText_eq_ok.mpr ⟨again, again, hagain, hskip, hsame.text.symm⟩

/-- The class of the sample note with the mark. -/
def markedNote : EntityClass where
  name := "Note"
  displayName := "Note"
  options := { settersEnhanced := true }
  fields := [⟨"e", .named [] "Entry" [], { entry := true }⟩, ⟨"id", .named [] "Id" [], {}⟩,
    ⟨"text", .named [] "Text" [], {}⟩]

/-- What was written for a note is left alone, as a program and as the text that is read again. -/
theorem note_left_alone :
    ∃ output report program enhanced again,
      (enhanceText {} Sample.note "").result = .ok (output, report) ∧
        Program.ofText? Sample.note = some program ∧ output = enhanced.text ∧
          LeavesAlone {} enhanced report ∧ Program.ofText? output = some again ∧
            SameText again enhanced ∧ LeavesTextAlone {} output "" report := by
  have hok : (enhanceText {} Sample.note "").result.isOk = true := by decide +kernel
  have hkeeps : (Program.ofText? Sample.note).all
      (fun program => (scopes program).all fun s => decide (KeepsMarks s.items)) = true := by
    decide +kernel
  -- the characters of the printed pieces, since the kernel is slow at joining texts
  have hreads : (Program.ofText? Sample.note).all (fun program =>
      (enhanceProgram {} program).result.toOption.all fun outcome =>
        ((lexFile? ((pieces outcome.1.tokens).flatMap String.toList)).bind Program.ofTokens?).any
          fun again => decide (again.tokens = outcome.1.tokens ∧
            (scopes again).map Scope.classes = [.ok [markedNote]] ∧
            (scopes outcome.1).map Scope.classes = [.ok [markedNote]])) = true := by
    decide +kernel
  obtain ⟨⟨output, report⟩, hrun⟩ := isOk_iff.mp hok
  obtain ⟨program, enhanced, hsource, henhanced, htext, hiff, htexts⟩ := second_run_leaves_alone_iff hrun
  rw [hsource, Option.all_some] at hkeeps hreads
  rw [henhanced] at hreads
  obtain ⟨again, hagain, hsame⟩ := (Option.any_eq_true _ _).mp hreads
  obtain ⟨htokens, hclasses, hclasses'⟩ := of_decide_eq_true hsame
  have hread : Program.ofText? output = some again := by
    rw [← hagain, htext, Program.text, print, Program.ofText?, String.toList_join]
    rfl
  have hsameText : SameText again enhanced := ⟨congrArg print htokens, hclasses.trans hclasses'.symm⟩
  have hmarks : ∀ s ∈ scopes program, KeepsMarks s.items := by simpa using hkeeps
  exact ⟨output, report, program, enhanced, again, hrun, hsource, htext, hiff.mpr hmarks, hread,
    hsameText, (htexts again hread hsameText).mpr hmarks⟩

/-- A note that is an entity in one configuration only gets its mark at the other declaration, and is
enhanced again by a second run. -/
theorem variants_enhanced_again :
    ∃ output report, (enhanceText {} Sample.noteVariants "").result = .ok (output, report) ∧
      ∃ again, (enhanceText {} output "").result = .ok (again, ⟨[("Note", [])], []⟩) ∧
        again ≠ output := by
  have hruns : ((enhanceText {} Sample.noteVariants "").result.bind fun (output, _) =>
      (enhanceText {} output "").result.map fun (again, report) =>
        (decide (again = output), report)) = .ok (false, ⟨[("Note", [])], []⟩) := by
    decide +kernel
  obtain ⟨⟨output, report⟩, hfirst, hruns⟩ := bind_eq_ok.mp hruns
  obtain ⟨⟨again, second⟩, hsecond, heq⟩ := map_eq_ok.mp hruns
  obtain ⟨hne, rfl⟩ := Prod.mk.inj heq
  exact ⟨output, report, hfirst, again, hsecond, of_decide_eq_false hne⟩

end Enhance

end Chronicle
