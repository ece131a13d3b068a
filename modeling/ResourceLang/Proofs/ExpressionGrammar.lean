import Mathlib.Data.List.Infix
import ResourceLang.Proofs.LexemeGrammar

/-!
Expressions and parentheses among the kinds of tokens. Tokens that a mode admits one after another
form closed expressions with other tokens between them, and perhaps one more that is still open.
Within an expression the parentheses are nested, and it ends at the first closing one that nothing
in it opened.
-/

set_option autoImplicit false
set_option relaxedAutoImplicit false

namespace ResourceLang.Proofs.ExpressionGrammar

open Token Token.Scan LexemeGrammar

/-! ### Words -/

/-- Nowhere have more parentheses been closed than opened. -/
def Nested (kinds : List Kind) : Prop :=
  ∀ front, front <+: kinds → front.count .rightParen ≤ front.count .leftParen

/-- Every parenthesis that is opened is closed, and the other way round. -/
structure Balanced (kinds : List Kind) : Prop where
  nested : Nested kinds
  settled : kinds.count .leftParen = kinds.count .rightParen

/-- The kinds of tokens within an expression: none opens or closes one, and none is a variable. -/
def Inner (kinds : List Kind) : Prop :=
  ∀ kind ∈ kinds, kind ∉ [Kind.expressionOpen, .expressionClose, .variableName]

/-- The kinds of tokens that leave no expression open. -/
inductive Closed : List Kind → Prop
  | nil : Closed []
  | other {kinds : List Kind} {kind : Kind} (h : Closed kinds) (hopen : kind ≠ .expressionOpen)
      (hclose : kind ≠ .expressionClose) : Closed (kinds ++ [kind])
  | expression {kinds body : List Kind} (h : Closed kinds) (hinner : Inner body)
      (hbalanced : Balanced body) :
    Closed (kinds ++ .expressionOpen :: body ++ [.expressionClose])

/-- The kinds of the tokens of a text: the last expression may have been left open. -/
def Structured (kinds : List Kind) : Prop :=
  Closed kinds ∨ ∃ front body, kinds = front ++ .expressionOpen :: body ∧ Closed front ∧
    Inner body ∧ Nested body

/-- The tokens that open and close expressions, with the others left out. -/
def marks (kinds : List Kind) : List Kind :=
  kinds.filter fun kind ↦ kind = .expressionOpen ∨ kind = .expressionClose

/-- Expressions are opened and closed in turn; the last that is opened need not be closed. -/
def Alternates (kinds : List Kind) : Prop :=
  ∃ count last, (last = [] ∨ last = [.expressionOpen]) ∧
    marks kinds = (List.replicate count [Kind.expressionOpen, .expressionClose]).flatten ++ last

theorem marks_append (kinds later : List Kind) :
    marks (kinds ++ later) = marks kinds ++ marks later :=
  List.filter_append kinds later

theorem marks_of_inner {body : List Kind} (h : Inner body) : marks body = [] := by
  refine List.filter_eq_nil_iff.mpr fun kind hkind hmark ↦ h kind hkind ?_
  rcases of_decide_eq_true hmark with rfl | rfl <;> decide

theorem marks_open {body : List Kind} (h : Inner body) :
    marks (.expressionOpen :: body) = [.expressionOpen] := by
  rw [marks, List.filter_cons_of_pos (by decide)]
  exact congrArg _ (marks_of_inner h)

theorem marks_of_closed {kinds : List Kind} (h : Closed kinds) :
    ∃ count, marks kinds =
      (List.replicate count [Kind.expressionOpen, .expressionClose]).flatten := by
  induction h with
  | nil => exact ⟨0, rfl⟩
  | @other kinds kind _ hopen hclose ih =>
    obtain ⟨count, hcount⟩ := ih
    have hnone : marks [kind] = [] := by simp [marks, hopen, hclose]
    exact ⟨count, by rw [marks_append, hcount, hnone, List.append_nil]⟩
  | @expression kinds body _ hinner _ ih =>
    obtain ⟨count, hcount⟩ := ih
    refine ⟨count + 1, ?_⟩
    rw [marks_append, marks_append, hcount, marks_open hinner, List.replicate_succ',
      List.flatten_concat, List.append_assoc]
    rfl

theorem alternates_of_structured {kinds : List Kind} (h : Structured kinds) : Alternates kinds := by
  rcases h with hclosed | ⟨front, body, rfl, hfront, hinner, _⟩
  · obtain ⟨count, hcount⟩ := marks_of_closed hclosed
    exact ⟨count, [], .inl rfl, by rw [hcount, List.append_nil]⟩
  · obtain ⟨count, hcount⟩ := marks_of_closed hfront
    exact ⟨count, [.expressionOpen], .inr rfl, by rw [marks_append, hcount, marks_open hinner]⟩

theorem nested_nil : Nested [] := by
  intro front hfront
  rw [List.prefix_nil.mp hfront]
  rfl

theorem nested_concat {body : List Kind} {kind : Kind} (h : Nested body)
    (hcount : (body ++ [kind]).count .rightParen ≤ (body ++ [kind]).count .leftParen) :
    Nested (body ++ [kind]) := by
  intro front hfront
  rcases List.prefix_concat_iff.mp hfront with rfl | hshort
  · exact hcount
  · exact h front hshort

theorem inner_concat {body : List Kind} {kind : Kind} (h : Inner body)
    (hkind : kind ∉ [Kind.expressionOpen, .expressionClose, .variableName]) :
    Inner (body ++ [kind]) := by
  intro other hother
  rcases List.mem_append.mp hother with hbody | hlast
  · exact h other hbody
  · rwa [List.mem_singleton.mp hlast]

theorem count_concat_of_ne {body : List Kind} {kind counted : Kind} (h : kind ≠ counted) :
    (body ++ [kind]).count counted = body.count counted := by
  rw [List.count_append, List.count_singleton, if_neg (by simpa using h), Nat.add_zero]

theorem count_concat_self (body : List Kind) (kind : Kind) :
    (body ++ [kind]).count kind = body.count kind + 1 := by
  rw [List.count_append, List.count_singleton_self]

/-! ### Modes -/

/-- What the tokens that lead to a mode look like. Inside an expression the mode counts the
parentheses of it that are still open. -/
def Shaped : Mode → List Kind → Prop
  | .outside, kinds => Closed kinds
  | .inside depth, kinds => ∃ front body, kinds = front ++ .expressionOpen :: body ∧ Closed front ∧
    Inner body ∧ Nested body ∧ body.count .leftParen = body.count .rightParen + depth

theorem after?_outside {kind : Kind} (hopen : kind ≠ .expressionOpen)
    (hclose : kind ≠ .expressionClose) : after? .outside kind = some .outside := by
  cases kind <;> first | rfl | exact absurd rfl hopen | exact absurd rfl hclose

theorem ne_of_not_modal {kind other : Kind} (hkind : kind ∉ modal) (hother : other ∈ modal) :
    kind ≠ other := by
  rintro rfl
  exact hkind hother

theorem shaped_inside_concat {front body : List Kind} {kind : Kind} {depth : Nat}
    (hfront : Closed front) (hinner : Inner body) (hnested : Nested body)
    (hkind : kind ∉ [Kind.expressionOpen, .expressionClose, .variableName])
    (hcount : (body ++ [kind]).count .leftParen = (body ++ [kind]).count .rightParen + depth) :
    Shaped (.inside depth) (front ++ .expressionOpen :: body ++ [kind]) := by
  refine ⟨front, body ++ [kind], ?_, hfront, inner_concat hinner hkind, ?_, hcount⟩
  · rw [List.append_assoc, List.cons_append]
  · refine nested_concat hnested ?_
    rw [hcount]
    exact Nat.le_add_right _ _

/-- One more token that the mode admits. -/
theorem shaped_after? {mode next : Mode} {kinds : List Kind} {kind : Kind} (h : Shaped mode kinds)
    (hnext : after? mode kind = some next) : Shaped next (kinds ++ [kind]) := by
  cases mode with
  | outside =>
    by_cases hopen : kind = .expressionOpen
    · subst hopen
      obtain rfl := Option.some.inj hnext
      exact ⟨kinds, [], rfl, h, by simp [Inner], nested_nil, rfl⟩
    by_cases hclose : kind = .expressionClose
    · subst hclose
      cases hnext
    · rw [after?_outside hopen hclose] at hnext
      obtain rfl := Option.some.inj hnext
      exact .other h hopen hclose
  | inside depth =>
    obtain ⟨front, body, rfl, hfront, hinner, hnested, hcount⟩ := h
    by_cases hmodal : kind ∈ modal
    · simp only [modal, List.mem_cons, List.not_mem_nil, or_false] at hmodal
      rcases hmodal with rfl | rfl | rfl | rfl | rfl
      · obtain rfl := Option.some.inj hnext
        refine shaped_inside_concat hfront hinner hnested (by decide) ?_
        rw [count_concat_self, count_concat_of_ne (by decide), hcount]
        rfl
      · cases depth with
        | zero => cases hnext
        | succ depth =>
          obtain rfl := Option.some.inj hnext
          refine shaped_inside_concat hfront hinner hnested (by decide) ?_
          rw [count_concat_self, count_concat_of_ne (by decide), hcount]
          omega
      · cases hnext
      · cases depth with
        | zero =>
          obtain rfl := Option.some.inj hnext
          exact .expression hfront hinner ⟨hnested, hcount⟩
        | succ depth => cases hnext
      · cases hnext
    · rw [after?_eq_self hmodal] at hnext
      obtain rfl := Option.some.inj hnext
      refine shaped_inside_concat hfront hinner hnested ?_ ?_
      · exact fun hmem ↦ hmodal (List.mem_cons_of_mem _ (List.mem_cons_of_mem _ hmem))
      · rw [count_concat_of_ne (ne_of_not_modal hmodal (by decide)),
          count_concat_of_ne (ne_of_not_modal hmodal (by decide)), hcount]

theorem shaped_afterAll? {mode last : Mode} {before kinds : List Kind} (h : Shaped mode before)
    (hlast : afterAll? mode kinds = some last) : Shaped last (before ++ kinds) := by
  induction kinds generalizing mode before with
  | nil =>
    obtain rfl := Option.some.inj hlast
    rwa [List.append_nil]
  | cons kind kinds ih =>
    rw [afterAll?, List.foldlM_cons] at hlast
    obtain ⟨next, hnext, hrest⟩ := Option.bind_eq_some_iff.mp hlast
    rw [List.append_cons]
    exact ih (shaped_after? h hnext) hrest

theorem structured_of_shaped {mode : Mode} {kinds : List Kind} (h : Shaped mode kinds) :
    Structured kinds := by
  cases mode with
  | outside => exact .inl h
  | inside depth =>
    obtain ⟨front, body, hkinds, hfront, hinner, hnested, _⟩ := h
    exact .inr ⟨front, body, hkinds, hfront, hinner, hnested⟩

/-! ### Closing parentheses -/

/-- A parenthesis that closes an expression is written as any other closing one. -/
def written (kind : Kind) : Kind := if kind = .expressionClose then .rightParen else kind

/-- A closing parenthesis behind these tokens is the first that nothing opened since an expression
was. -/
def FirstUnmatched (kinds : List Kind) : Prop :=
  ∃ front body, kinds = front ++ .expressionOpen :: body ∧ Balanced (body.map written)

theorem map_written_of_inner {body : List Kind} (h : Inner body) : body.map written = body := by
  have hself : ∀ kind ∈ body, written kind = id kind := by
    intro kind hkind
    refine if_neg fun hclose ↦ ?_
    exact h kind hkind (by simp [hclose])
  rw [List.map_congr_left hself, List.map_id]

theorem afterAll?_append_eq_some {mode last : Mode} {front kinds : List Kind}
    (h : afterAll? mode (front ++ kinds) = some last) :
    ∃ middle, afterAll? mode front = some middle ∧ afterAll? middle kinds = some last := by
  rw [afterAll?, List.foldlM_append] at h
  exact Option.bind_eq_some_iff.mp h

/-- One more token within an expression, which stays open unless the token is an unmatched
parenthesis. -/
theorem inside_after? {depth : Nat} {kind : Kind} {next : Mode}
    (hnext : after? (.inside depth) kind = some next)
    (hmatched : [written kind].count .rightParen ≤ depth + [written kind].count .leftParen) :
    ∃ left, next = .inside left ∧
      left + [written kind].count .rightParen = depth + [written kind].count .leftParen := by
  by_cases hmodal : kind ∈ modal
  · simp only [modal, List.mem_cons, List.not_mem_nil, or_false] at hmodal
    rcases hmodal with rfl | rfl | rfl | rfl | rfl
    · exact ⟨depth + 1, (Option.some.inj hnext).symm, rfl⟩
    · cases depth with
      | zero => cases hnext
      | succ depth => exact ⟨depth, (Option.some.inj hnext).symm, rfl⟩
    · cases hnext
    · cases depth with
      | zero => exact absurd hmatched (by decide)
      | succ depth => cases hnext
    · cases hnext
  · rw [after?_eq_self hmodal] at hnext
    have hself : written kind = kind := if_neg (ne_of_not_modal hmodal (by decide))
    refine ⟨depth, (Option.some.inj hnext).symm, ?_⟩
    rw [hself, List.count_singleton, List.count_singleton,
      if_neg (by simpa using ne_of_not_modal hmodal (by decide)),
      if_neg (by simpa using ne_of_not_modal hmodal (by decide))]

/-- Tokens within an expression that close no more parentheses than are open do not leave it. -/
theorem inside_of_nested {depth : Nat} {body : List Kind} {last : Mode}
    (h : afterAll? (.inside depth) body = some last)
    (hnested : ∀ front, front <+: body.map written →
      front.count .rightParen ≤ depth + front.count .leftParen) :
    ∃ left, last = .inside left ∧
      left + (body.map written).count .rightParen =
        depth + (body.map written).count .leftParen := by
  induction body generalizing depth with
  | nil => exact ⟨depth, (Option.some.inj h).symm, rfl⟩
  | cons kind body ih =>
    rw [afterAll?, List.foldlM_cons] at h
    obtain ⟨next, hnext, hrest⟩ := Option.bind_eq_some_iff.mp h
    have hcount (counted : Kind) (kinds : List Kind) : (written kind :: kinds).count counted =
        [written kind].count counted + kinds.count counted :=
      @List.count_append _ _ counted [written kind] kinds
    have hfront (front : List Kind) (hshort : front <+: body.map written) :=
      hnested (written kind :: front) (List.cons_prefix_cons.mpr ⟨rfl, hshort⟩)
    obtain ⟨middle, rfl, hmiddle⟩ := inside_after? hnext (hfront [] List.nil_prefix)
    obtain ⟨left, rfl, hleft⟩ := ih hrest fun front hshort ↦ by
      have hlater := hfront front hshort
      rw [hcount .rightParen front, hcount .leftParen front] at hlater
      omega
    refine ⟨left, rfl, ?_⟩
    rw [List.map_cons, hcount .rightParen (body.map written), hcount .leftParen (body.map written)]
    omega

/-- A closing parenthesis closes an expression exactly if it is the first unmatched one in it. -/
theorem eq_expressionClose_iff {before : List Kind} {kind : Kind} {mode next : Mode}
    (hmode : afterAll? .outside before = some mode) (hnext : after? mode kind = some next)
    (hkind : kind = .rightParen ∨ kind = .expressionClose) :
    kind = .expressionClose ↔ FirstUnmatched before := by
  constructor
  · rintro rfl
    have hshaped := @shaped_afterAll? .outside mode [] before Closed.nil hmode
    rcases mode with _ | _ | depth
    · cases hnext
    · obtain ⟨front, body, hbefore, _, hinner, hnested, hcount⟩ := hshaped
      refine ⟨front, body, hbefore, ?_⟩
      rw [map_written_of_inner hinner]
      exact ⟨hnested, hcount⟩
    · cases hnext
  · rintro ⟨front, body, rfl, hbalanced⟩
    obtain ⟨middle, _, hrest⟩ := afterAll?_append_eq_some hmode
    rw [afterAll?, List.foldlM_cons] at hrest
    obtain ⟨opened, hopened, hbody⟩ := Option.bind_eq_some_iff.mp hrest
    cases middle with
    | inside depth => cases hopened
    | outside =>
      obtain rfl := Option.some.inj hopened
      obtain ⟨left, rfl, hleft⟩ := inside_of_nested hbody fun front hfront ↦ by
        rw [Nat.zero_add]
        exact hbalanced.nested front hfront
      obtain rfl : left = 0 := by
        have hsettled := hbalanced.settled
        omega
      rcases hkind with rfl | rfl
      · cases hnext
      · rfl

end ResourceLang.Proofs.ExpressionGrammar
