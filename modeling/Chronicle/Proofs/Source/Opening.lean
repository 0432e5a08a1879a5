import Chronicle.Source.Grammar
import Mathlib.Tactic.SplitIfs

/-!
# How phrases begin

A phrase that is written as a single literal or a single word is that token: an expression can only
be written as one literal by reading it, and a path as one word by reading that word.

## Implementation notes

A rule is judged by how what it writes begins, from its text alone. Phrases that call one another
are judged under an assumption on all of them, which the rules of the grammar give back.
-/

namespace Chronicle

namespace Source

/-- A kind of tokens that may be all that a rule writes. -/
inductive Lone where
  | word
  | literal
deriving DecidableEq

/-- Whether a token is of the kind. -/
def Lone.covers : Lone → Token → Bool
  | .word, .word _ => true
  | .literal, .literal _ => true
  | _, _ => false

/-- How what a rule writes begins. -/
inductive Opening where
  /-- With a token of another kind. -/
  | other
  /-- With a token of another kind, unless the rule reads and writes nothing. -/
  | idle
  /-- With some token, and one of the kind that is all that is written is all that is read. -/
  | lone
  | unknown

namespace Opening

variable {kind : Lone} {tokens : Tokens} {step : Step}

/-- Whether tokens begin with one of another kind. -/
def BeginsOtherwise (kind : Lone) (written : Tokens) : Prop :=
  ∃ token more, written = token :: more ∧ kind.covers token = false

/-- Whether what a rule writes begins as said. -/
def Fits (kind : Lone) (tokens : Tokens) (step : Step) : Opening → Prop
  | .other => BeginsOtherwise kind step.1
  | .idle => step = ([], tokens) ∨ BeginsOtherwise kind step.1
  | .lone =>
    step.1 ≠ [] ∧ ∀ token, kind.covers token = true → step.1 = [token] → tokens = token :: step.2
  | .unknown => True

/-- How two rules that follow one another begin. -/
def andThen : Opening → Opening → Opening
  | .other, _ => .other
  | .idle, next => next
  | .lone, .unknown => .unknown
  | .lone, _ => .lone
  | .unknown, _ => .unknown

/-- How one of two rules begins. -/
def either : Opening → Opening → Opening
  | .other, next => next
  | first, .other => first
  | .idle, .idle => .idle
  | .lone, .lone => .lone
  | _, _ => .unknown

/-- How a rule begins that is followed any number of times. -/
def again : Opening → Opening
  | .other | .idle => .idle
  | _ => .unknown

theorem BeginsOtherwise.append {written : Tokens} (h : BeginsOtherwise kind written)
    (more : Tokens) : BeginsOtherwise kind (written ++ more) := by
  obtain ⟨token, next, rfl, hkind⟩ := h
  exact ⟨token, next ++ more, rfl, hkind⟩

/-- Whatever begins otherwise may be expected to begin in any way. -/
theorem BeginsOtherwise.fits (h : BeginsOtherwise kind step.1) (opening : Opening) :
    opening.Fits kind tokens step := by
  cases opening with
  | other => exact h
  | idle => exact Or.inr h
  | lone =>
      obtain ⟨first, more, hwritten, hkind⟩ := h
      refine ⟨by simp [hwritten], fun token htoken hlone => ?_⟩
      rw [hwritten, List.cons.injEq] at hlone
      rw [← hlone.1, hkind] at htoken
      cases htoken
  | unknown => trivial

theorem Fits.ne_nil {opening : Opening} (h : opening.Fits kind tokens step)
    (hopening : opening = .other ∨ opening = .lone) : step.1 ≠ [] := by
  rcases hopening with rfl | rfl
  · obtain ⟨token, more, hwritten, -⟩ := h
    simp [hwritten]
  · exact h.1

theorem Fits.andThen {first second : Opening} {written more rest last : Tokens}
    (hfirst : first.Fits kind tokens (written, rest))
    (hsecond : second.Fits kind rest (more, last)) :
    (first.andThen second).Fits kind tokens (written ++ more, last) := by
  cases first with
  | other => exact hfirst.append more
  | idle =>
      rcases hfirst with hnothing | hother
      · cases hnothing
        exact hsecond
      · exact (hother.append more).fits _
  | lone =>
      -- two rules that both write something do not write a single token
      have hboth (hmore : more ≠ []) :
          Opening.lone.Fits kind tokens (written ++ more, last) := by
        refine ⟨by simp [hmore], fun token _ hlone => ?_⟩
        rcases List.append_eq_singleton_iff.mp hlone with ⟨hwritten, -⟩ | ⟨-, hnil⟩
        · exact absurd hwritten hfirst.1
        · exact absurd hnil hmore
      cases second with
      | other => exact hboth (hsecond.ne_nil (Or.inl rfl))
      | idle =>
          rcases hsecond with hnothing | hother
          · cases hnothing
            rwa [List.append_nil]
          · have hfits : Opening.other.Fits kind rest (more, last) := hother
            exact hboth (hfits.ne_nil (Or.inl rfl))
      | lone => exact hboth (hsecond.ne_nil (Or.inr rfl))
      | unknown => trivial
  | unknown => trivial

theorem Fits.either_left {first : Opening} (h : first.Fits kind tokens step) (second : Opening) :
    (first.either second).Fits kind tokens step := by
  cases first with
  | other => exact BeginsOtherwise.fits h _
  | idle => cases second <;> first | exact h | trivial
  | lone => cases second <;> first | exact h | trivial
  | unknown => cases second <;> trivial

theorem Fits.either_right {second : Opening} (first : Opening) (h : second.Fits kind tokens step) :
    (first.either second).Fits kind tokens step := by
  cases second with
  | other => exact BeginsOtherwise.fits h _
  | idle => cases first <;> first | exact h | trivial
  | lone => cases first <;> first | exact h | trivial
  | unknown => cases first <;> trivial

end Opening

/-- How a rule begins that writes a token of the given kind as it reads it. -/
def Opening.alike (kind written : Lone) : Opening := if kind = written then .lone else .other

theorem Opening.fits_alike (kind : Lone) {written : Lone} {token : Token}
    (h : written.covers token = true) (rest : Tokens) :
    (Opening.alike kind written).Fits kind (token :: rest) ([token], rest) := by
  unfold Opening.alike
  split_ifs with hkind
  · exact ⟨by simp, by rintro _ - ⟨⟩; rfl⟩
  · refine ⟨token, [], rfl, ?_⟩
    cases written <;> cases token <;> cases h <;> cases kind
    all_goals first | rfl | exact absurd rfl hkind

/-- How what a terminal writes begins. -/
def Terminal.opening (kind : Lone) : Terminal → Opening
  | .word _ | .name | .anyWord => .alike kind .word
  | .literal => .alike kind .literal
  | .op text => if text = "" then .unknown else .other
  | .lifetime | .opened _ | .closed _ => .other
  | .finish => .idle
  | _ => .unknown

/-- How what a rule writes begins, given how phrases begin. -/
def Rule.opening {Φ : Type} (kind : Lone) (known : Φ → Opening) : Rule Φ → Opening
  | .done => .idle
  | .never => .other
  | .read terminal => terminal.opening kind
  | .seq first second => (first.opening kind known).andThen (second.opening kind known)
  | .choose _ yes no => (yes.opening kind known).either (no.opening kind known)
  | .orElse first second => (first.opening kind known).either (second.opening kind known)
  | .repeatWhile _ body => (body.opening kind known).again
  | .call phrase => known phrase
  | .skip _ | .verbatim _ | .reading _ => .unknown

/-- The tokens of an operator begin with one of its characters. -/
theorem beginsOtherwise_operator (kind : Lone) {text : String} (h : text ≠ "") :
    Opening.BeginsOtherwise kind (operator text.toList) := by
  have hmark (c : Char) (joined : Bool) : kind.covers (.punct c joined) = false := by
    cases kind <;> rfl
  match hchars : text.toList with
  | [] => exact absurd (String.toList_eq_nil_iff.mp hchars) h
  | [c] => exact ⟨.punct c false, [], rfl, hmark c false⟩
  | c :: d :: more => exact ⟨.punct c true, operator (d :: more), rfl, hmark c true⟩

theorem Terminal.read?_fits (kind : Lone) {terminal : Terminal} {tokens : Tokens} {step : Step}
    (h : terminal.read? tokens = some step) : (terminal.opening kind).Fits kind tokens step := by
  have hother (token : Token) (more rest : Tokens) (ht : kind.covers token = false) :
      Opening.other.Fits kind tokens (token :: more, rest) := ⟨token, more, rfl, ht⟩
  unfold Terminal.read? at h
  split at h <;> simp only [Terminal.opening] <;> try trivial
  case h_1 | h_2 =>
    split_ifs at h
    cases h
    exact Opening.fits_alike kind rfl _
  case h_3 | h_5 =>
    cases h
    exact Opening.fits_alike kind rfl _
  case h_4 =>
    cases h
    exact hother _ _ _ (by cases kind <;> rfl)
  case h_11 =>
    obtain ⟨rest, -, rfl⟩ := Option.map_eq_some_iff.mp h
    split_ifs with hempty
    · trivial
    · exact beginsOtherwise_operator kind hempty
  case h_13 | h_14 =>
    split_ifs at h
    cases h
    exact hother _ _ _ (by cases kind <;> rfl)
  case h_18 | h_19 =>
    cases h
    exact Or.inl rfl

theorem Rule.iterate_fits (kind : Lone) {look : Look} {read : Tokens → Option Step}
    {opening : Opening}
    (hread : ∀ {tokens step}, read tokens = some step → opening.Fits kind tokens step)
    {limit : Nat} {tokens : Tokens} {step : Step}
    (h : Rule.iterate look read limit tokens = some step) :
    opening.again.Fits kind tokens step := by
  induction limit generalizing tokens step with
  | zero => cases h
  | succ limit ih =>
      rw [Rule.iterate] at h
      split at h
      · split at h
        · rename_i written rest hfirst
          obtain ⟨⟨more, last⟩, hmore, rfl⟩ := Option.map_eq_some_iff.mp h
          have hboth := (hread hfirst).andThen (ih hmore)
          cases opening with
          | other => exact hboth.fits _
          | idle => exact hboth
          | lone => trivial
          | unknown => trivial
        · cases h
      · cases h
        cases opening <;> first | exact Or.inl rfl | trivial

/-- A rule begins as its text says if the phrases do. -/
theorem Rule.follow_fits {Φ : Type} (kind : Lone) {known : Φ → Opening} {limit : Nat}
    {meaning : Φ → Tokens → Option Step}
    (hcall : ∀ phrase tokens step, meaning phrase tokens = some step →
      (known phrase).Fits kind tokens step)
    {rule : Rule Φ} {tokens : Tokens} {step : Step}
    (h : rule.follow limit meaning tokens = some step) :
    (rule.opening kind known).Fits kind tokens step := by
  induction rule generalizing tokens step with
  | done =>
      cases h
      exact Or.inl rfl
  | never => cases h
  | read terminal => exact Terminal.read?_fits kind h
  | seq first second ihfirst ihsecond =>
      rw [Rule.follow] at h
      split at h
      · rename_i written rest hfirst
        obtain ⟨⟨more, last⟩, hsecond, rfl⟩ := Option.map_eq_some_iff.mp h
        exact (ihfirst hfirst).andThen (ihsecond hsecond)
      · cases h
  | choose look yes no ihyes ihno =>
      rw [Rule.follow] at h
      split at h
      · exact (ihyes h).either_left _
      · exact (ihno h).either_right _
  | orElse first second ihfirst ihsecond =>
      rw [Rule.follow] at h
      split at h
      · rename_i hfirst
        cases h
        exact (ihfirst hfirst).either_left _
      · exact (ihsecond h).either_right _
  | repeatWhile look body ih => exact Rule.iterate_fits kind ih h
  | call phrase => exact hcall phrase tokens step h
  | skip body => trivial
  | verbatim body => trivial
  | reading reader => trivial

/-- How phrases begin, as far as literals and the words of paths need it. -/
def Phrase.opening (kind : Lone) : Phrase → Opening
  | .expression _ | .operand _ | .atom _ =>
    match kind with
    | .word => .unknown
    | .literal => .lone
  | .wordPath => .alike kind .word
  | .outerAttributes => .idle
  | .block => .other
  | _ => .unknown

/-- Each rule begins as its phrase should. -/
theorem opening_rule (kind : Lone) {phrase : Phrase} (h : phrase ≠ .outerAttributes) :
    phrase.opening kind = .unknown ∨
      (grammar.rule phrase).opening kind (Phrase.opening kind) = phrase.opening kind := by
  cases phrase with
  | expression braces => cases kind <;> cases braces <;> first | exact Or.inl rfl | exact Or.inr rfl
  | operand braces => cases kind <;> cases braces <;> first | exact Or.inl rfl | exact Or.inr rfl
  | atom braces => cases kind <;> cases braces <;> first | exact Or.inl rfl | exact Or.inr rfl
  | wordPath => cases kind <;> exact Or.inr rfl
  | block => cases kind <;> exact Or.inr rfl
  | outerAttributes => exact absurd rfl h
  | _ => exact Or.inl rfl

namespace Reading

variable {α β : Type}

/-- Two readers one after another read what the first one reads and then the second one. -/
theorem bind_eq_some {first : Reading α} {next : α → Reading β} {tokens rest : Tokens} {value : β} :
    (first >>= next) tokens = some (value, rest) ↔
      ∃ read between, first tokens = some (read, between) ∧
        next read between = some (value, rest) := by
  change Option.bind (first tokens) (fun step => next step.1 step.2) = _ ↔ _
  simp only [Option.bind_eq_some_iff, Prod.exists]

theorem sees_bind (look : Look) (next : Bool → Reading β) (tokens : Tokens) :
    (sees look >>= next) tokens = next (look.holds tokens) tokens := rfl

theorem pure_eq_some {value given : β} {tokens rest : Tokens} :
    (pure given : Reading β) tokens = some (value, rest) ↔ given = value ∧ tokens = rest := by
  change some (given, tokens) = some (value, rest) ↔ _
  simp only [Option.some.injEq, Prod.mk.injEq]

theorem whileTrue_nil {look : Look} {body : Reading α} {limit : Nat} {tokens rest : Tokens}
    (h : whileTrue look body limit tokens = some ([], rest)) : rest = tokens := by
  cases limit with
  | zero => cases h
  | succ limit =>
      rw [whileTrue, sees_bind] at h
      split at h
      · obtain ⟨_, _, -, h⟩ := bind_eq_some.mp h
        obtain ⟨_, _, -, h⟩ := bind_eq_some.mp h
        cases (pure_eq_some.mp h).1
      · exact (pure_eq_some.mp h).2.symm

end Reading

/-- Attributes begin with their mark, and where there are none, nothing is read. -/
theorem outerAttributes_fits (kind : Lone) {limit : Nat} {meaning : Meaning} {tokens : Tokens}
    {step : Step} (h : (Rules.attributes false).follow limit meaning tokens = some step) :
    Opening.idle.Fits kind tokens step := by
  simp only [Rules.attributes, Rule.opt, Rule.follow, Bool.false_eq_true, if_false] at h
  split at h
  · obtain ⟨⟨attributes, rest⟩, hread, hstep⟩ := Option.bind_eq_some_iff.mp h
    cases hstep
    cases attributes with
    | nil =>
        left
        rw [Reading.whileTrue_nil hread]
        rfl
    | cons a more => 
        right
        exact ⟨.punct '#' false, _, rfl, by cases kind <;> rfl⟩
  · cases h
    exact Or.inl rfl

/-- Phrases of the grammar begin as they should. -/
theorem follow_fits (kind : Lone) {fuel : Nat} {phrase : Phrase} {tokens : Tokens} {step : Step}
    (h : grammar.follow fuel phrase tokens = some step) :
    (phrase.opening kind).Fits kind tokens step := by
  induction fuel generalizing phrase tokens step with
  | zero => cases h
  | succ fuel ih =>
      rw [Grammar.follow] at h
      by_cases hattributes : phrase = .outerAttributes
      · subst hattributes
        exact outerAttributes_fits kind h
      · rcases opening_rule kind hattributes with hunknown | hrule
        · rw [hunknown]
          trivial
        · rw [← hrule]
          exact Rule.follow_fits kind (fun _ _ _ hphrase => @ih _ _ _ hphrase) h

/-- What is written as one literal is that literal. -/
theorem literal_of_expression {size : Nat} {braces : Bool} {tokens rest : Tokens} {text : String}
    (h : meaning size (.expression braces) tokens = some ([.literal text], rest)) :
    tokens = .literal text :: rest :=
  (follow_fits .literal h).2 (.literal text) rfl rfl

/-- A path that is written as one word is that word. -/
theorem word_of_wordPath {size : Nat} {tokens rest : Tokens} {text : String}
    (h : meaning size .wordPath tokens = some ([.word text], rest)) :
    tokens = .word text :: rest :=
  (follow_fits .word h).2 (.word text) rfl rfl

end Source

end Chronicle
