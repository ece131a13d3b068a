import ResourceLang.Token.Reader

/-!
A reader over a whole run of calls. A call gives the token that is next and passes over that one, or
it gives none and stays where it is; only skipping passes over tokens unseen. So no token is given
twice or out of turn, and a run that skips nothing has given exactly the tokens that it has passed
over.
-/

set_option autoImplicit false
set_option relaxedAutoImplicit false

namespace ResourceLang.Proofs.ReaderRuns

open Token

/-- A call of a reader. -/
inductive Call
  | ahead (count : Nat)
  | nextIs (kind : Kind)
  | next
  | skip (count : Nat)
  | require (kind : Kind)
  | requireAny (kinds : List Kind)
  | nextIf (kind : Kind)
  deriving DecidableEq

/-- What a call comes to: what it sees or tells of the tokens in front, the token that it takes, an
error where there is no token or the wrong one, or nothing at all. -/
inductive Answer
  | seen (token : Token)
  | told (holds : Bool)
  | taken (token : Token)
  | refused (error : ReaderError)
  | nothing

namespace Answer

def token? : Answer → Option Token
  | taken token => some token
  | _ => none

/-- The answer of a call that has to have a token. -/
def ofOutcome (found : Token → Answer) : Except ReaderError Token → Answer
  | .ok token => found token
  | .error error => refused error

/-- The answer of a call that may take a token. -/
def ofOption : Option Token → Answer
  | some token => taken token
  | none => nothing

end Answer

/-- The reader that a call leaves behind, whatever comes of the call, and its answer. -/
def perform (reader : TokenReader) : Call → TokenReader × Answer
  | .ahead count => (reader, .ofOutcome .seen ((reader.ahead count).mapError .lexical))
  | .nextIs kind => (reader, .told (reader.nextIs kind))
  | .next => reader.next.map id fun outcome ↦ .ofOutcome .taken (outcome.mapError .lexical)
  | .skip count => (reader.skip count, .nothing)
  | .require kind => (reader.require kind).map id (.ofOutcome .taken)
  | .requireAny kinds => (reader.requireAny kinds).map id (.ofOutcome .taken)
  | .nextIf kind => (reader.nextIf? kind).map id .ofOption

/-- The reader after some calls. -/
def run (reader : TokenReader) (calls : List Call) : TokenReader :=
  calls.foldl (fun reader call ↦ (perform reader call).1) reader

/-- The tokens that some calls give, in order. -/
def given (reader : TokenReader) : List Call → List Token
  | [] => []
  | call :: rest =>
    (perform reader call).2.token?.toList ++ given (perform reader call).1 rest

/-- Whether a call takes the token if that is next. -/
def Wants (token : Token) : Call → Prop
  | .next => True
  | .require kind => token.kind = kind
  | .requireAny kinds => token.kind ∈ kinds
  | .nextIf kind => token.kind = kind
  | .ahead _ | .nextIs _ | .skip _ => False

/-- Whether a call has to have a token and there is none that far on. -/
def PastEnd (reader : TokenReader) : Call → Prop
  | .ahead count => reader.tokens.length ≤ reader.position + count
  | .next | .require _ | .requireAny _ => reader.tokens.length ≤ reader.position
  | .nextIs _ | .skip _ | .nextIf _ => False

/-- The kinds of which a call requires one. -/
def required? : Call → Option (List Kind)
  | .require kind => some [kind]
  | .requireAny kinds => some kinds
  | .ahead _ | .nextIs _ | .next | .skip _ | .nextIf _ => none

/-- All that a call can come to. It takes the next token where it wants that one, and passes over it
alone. A call that only looks, one that there is no token for, and one that the next token is not
right for: each says so and leaves the reader as it was. -/
inductive Step (reader : TokenReader) : Call → TokenReader → Answer → Prop
  | takes {call : Call} {token : Token} {after : TokenReader}
      (hnext : reader.tokens[reader.position]? = some token) (hwants : Wants token call)
      (htokens : after.tokens = reader.tokens) (hposition : after.position = reader.position + 1) :
    Step reader call after (.taken token)
  | sees {count : Nat} {token : Token}
      (hahead : reader.tokens[reader.position + count]? = some token) :
    Step reader (.ahead count) reader (.seen token)
  | tells {kind : Kind} {holds : Bool}
      (hholds : holds = true ↔ ∃ token, reader.tokens[reader.position]? = some token ∧
        token.kind = kind) :
    Step reader (.nextIs kind) reader (.told holds)
  | ends {call : Call} (hpast : PastEnd reader call) :
    Step reader call reader (.refused (.lexical (.unexpectedEnd reader.textEnd)))
  | refuses {call : Call} {kinds : List Kind} {token : Token} (hkinds : required? call = some kinds)
      (hnext : reader.tokens[reader.position]? = some token) (hkind : token.kind ∉ kinds) :
    Step reader call reader (.refused (.unexpected kinds token))
  | leaves {kind : Kind}
      (hkind : ∀ token, reader.tokens[reader.position]? = some token → token.kind ≠ kind) :
    Step reader (.nextIf kind) reader .nothing
  | skips {count : Nat} {after : TokenReader} (htokens : after.tokens = reader.tokens)
      (hposition : after.position = min (reader.position + count) reader.tokens.length) :
    Step reader (.skip count) after .nothing

variable {reader after : TokenReader} {call : Call} {answer : Answer}

/-! ### One call -/

theorem step_ahead (reader : TokenReader) (count : Nat) :
    Step reader (.ahead count) (perform reader (.ahead count)).1
      (perform reader (.ahead count)).2 := by
  rw [perform]
  cases htoken : reader.tokens[reader.position + count]? with
  | some token =>
    rw [TokenReader.ahead_of_some htoken]
    exact .sees htoken
  | none =>
    rw [TokenReader.ahead_of_none htoken]
    exact .ends (List.getElem?_eq_none_iff.mp htoken)

theorem nextIs_iff (reader : TokenReader) (kind : Kind) :
    reader.nextIs kind = true ↔
      ∃ token, reader.tokens[reader.position]? = some token ∧ token.kind = kind := by
  simp only [TokenReader.nextIs, Option.any_eq_true, decide_eq_true_iff]

theorem step_next (reader : TokenReader) :
    Step reader .next (perform reader .next).1 (perform reader .next).2 := by
  rw [perform]
  cases htoken : reader.tokens[reader.position]? with
  | some token =>
    obtain ⟨after, hnext, htokens, hposition⟩ := TokenReader.next_of_some htoken
    rw [hnext]
    exact .takes htoken trivial htokens hposition
  | none =>
    rw [TokenReader.next_of_none htoken]
    exact .ends (List.getElem?_eq_none_iff.mp htoken)

/-- A call that requires some kinds looks at the next token, and reads it if it is of those. -/
theorem step_requireAny {kinds : List Kind} (hkinds : required? call = some kinds)
    (hwants : ∀ token, Wants token call ↔ token.kind ∈ kinds)
    (hpast : PastEnd reader call ↔ reader.tokens.length ≤ reader.position) :
    Step reader call (reader.requireAny kinds).1
      (Answer.ofOutcome .taken (reader.requireAny kinds).2) := by
  rw [TokenReader.requireAny]
  cases htoken : reader.tokens[reader.position]? with
  | some token =>
    have hahead : reader.ahead 0 = .ok token := TokenReader.ahead_of_some htoken
    rw [hahead]
    by_cases hkind : token.kind ∈ kinds
    · obtain ⟨after, hnext, htokens, hposition⟩ := TokenReader.next_of_some htoken
      simp only [if_pos hkind, hnext]
      exact .takes htoken ((hwants token).mpr hkind) htokens hposition
    · simp only [if_neg hkind]
      exact .refuses hkinds htoken hkind
  | none =>
    have hahead : reader.ahead 0 = .error (.unexpectedEnd reader.textEnd) :=
      TokenReader.ahead_of_none htoken
    rw [hahead]
    exact .ends (hpast.mpr (List.getElem?_eq_none_iff.mp htoken))

theorem step_nextIf (reader : TokenReader) (kind : Kind) :
    Step reader (.nextIf kind) (perform reader (.nextIf kind)).1
      (perform reader (.nextIf kind)).2 := by
  rw [perform, TokenReader.nextIf?]
  by_cases his : reader.nextIs kind = true
  · obtain ⟨token, htoken, hkind⟩ := (nextIs_iff reader kind).mp his
    obtain ⟨after, hnext, htokens, hposition⟩ := TokenReader.next_of_some htoken
    rw [if_pos his, hnext]
    exact .takes htoken hkind htokens hposition
  · rw [if_neg his]
    refine .leaves fun token htoken hkind ↦ his ?_
    exact (nextIs_iff reader kind).mpr ⟨token, htoken, hkind⟩

theorem step_perform (reader : TokenReader) (call : Call) :
    Step reader call (perform reader call).1 (perform reader call).2 := by
  cases call with
  | ahead count => exact step_ahead reader count
  | nextIs kind => exact .tells (nextIs_iff reader kind)
  | next => exact step_next reader
  | skip count => exact .skips rfl rfl
  | require kind => exact step_requireAny rfl (fun _ ↦ List.mem_singleton.symm) Iff.rfl
  | requireAny kinds => exact step_requireAny rfl (fun _ ↦ Iff.rfl) Iff.rfl
  | nextIf kind => exact step_nextIf reader kind

theorem Step.tokens_eq (h : Step reader call after answer) : after.tokens = reader.tokens := by
  cases h with
  | takes _ _ htokens _ => exact htokens
  | skips htokens _ => exact htokens
  | sees | tells | ends | refuses | leaves => rfl

theorem Step.position_le (h : Step reader call after answer) :
    reader.position ≤ after.position := by
  cases h with
  | takes _ _ _ hposition => omega
  | skips _ hposition =>
    rw [hposition]
    exact Nat.le_min.mpr ⟨Nat.le_add_right _ _, reader.position_le⟩
  | sees | tells | ends | refuses | leaves => exact Nat.le_refl _

/-- A call that neither takes a token nor skips leaves the reader where it was. -/
theorem Step.eq_of_token?_eq_none (h : Step reader call after answer) (hnone : answer.token? = none)
    (hcall : ∀ count, call ≠ .skip count) : after = reader := by
  cases h with
  | takes => cases hnone
  | skips => exact absurd rfl (hcall _)
  | sees | tells | ends | refuses | leaves => rfl

/-! ### Runs -/

theorem tokens_run (reader : TokenReader) (calls : List Call) :
    (run reader calls).tokens = reader.tokens := by
  induction calls generalizing reader with
  | nil => rfl
  | cons call rest ih => exact (ih _).trans (step_perform reader call).tokens_eq

theorem position_le_run (reader : TokenReader) (calls : List Call) :
    reader.position ≤ (run reader calls).position := by
  induction calls generalizing reader with
  | nil => exact Nat.le_refl _
  | cons call rest ih => exact Nat.le_trans (step_perform reader call).position_le (ih _)

/-- The tokens that lie between a reader and a later one. -/
def between (reader later : TokenReader) : List Token :=
  (reader.tokens.take later.position).drop reader.position

theorem between_self (reader : TokenReader) : between reader reader = [] := by
  simp [between]

/-- The token that is taken is the first of those that lie in front. -/
theorem between_of_takes {token : Token} {later : TokenReader}
    (hnext : reader.tokens[reader.position]? = some token) (htokens : after.tokens = reader.tokens)
    (hposition : after.position = reader.position + 1) (hlater : after.position ≤ later.position) :
    between reader later = token :: between after later := by
  have hfirst : (reader.tokens.take later.position)[reader.position]? = some token := by
    rw [List.getElem?_take_of_lt (by omega), hnext]
  obtain ⟨hlt, rfl⟩ := List.getElem?_eq_some_iff.mp hfirst
  rw [between, between, htokens, hposition]
  exact List.drop_eq_getElem_cons hlt

/-- A run gives tokens that it passes over, each at most once and in their order, and all of them
unless it skips. -/
theorem given_run (reader : TokenReader) (calls : List Call) :
    (given reader calls).Sublist (between reader (run reader calls)) ∧
      ((∀ count, .skip count ∉ calls) →
        given reader calls = between reader (run reader calls)) := by
  induction calls generalizing reader with
  | nil => exact ⟨List.nil_sublist _, fun _ ↦ (between_self reader).symm⟩
  | cons call rest ih =>
    have hstep := step_perform reader call
    have hlater := position_le_run (perform reader call).1 rest
    obtain ⟨hsublist, hall⟩ := ih (perform reader call).1
    rw [given, run, List.foldl_cons, ← run]
    generalize perform reader call = result at hstep hlater hsublist hall ⊢
    obtain ⟨after, answer⟩ := result
    change Step reader call after answer at hstep
    have hrest (h : ∀ count, .skip count ∉ call :: rest) : ∀ count, .skip count ∉ rest :=
      fun count hmem ↦ h count (List.mem_cons_of_mem _ hmem)
    cases hanswer : answer.token? with
    | some token =>
      cases hstep with
      | takes hnext hwants htokens hposition =>
        obtain rfl := Option.some.inj hanswer
        rw [between_of_takes hnext htokens hposition hlater]
        exact ⟨hsublist.cons_cons _, fun h ↦ congrArg (_ :: ·) (hall (hrest h))⟩
      | _ => cases hanswer
    | none =>
      by_cases hcall : ∃ count, call = .skip count
      · obtain ⟨count, rfl⟩ := hcall
        refine ⟨hsublist.trans ?_, fun h ↦ absurd List.mem_cons_self (h count)⟩
        rw [between, between, hstep.tokens_eq]
        exact List.drop_sublist_drop_left _ hstep.position_le
      · rw [not_exists] at hcall
        obtain rfl := hstep.eq_of_token?_eq_none hanswer hcall
        exact ⟨hsublist, fun h ↦ hall (hrest h)⟩

theorem isDone_iff (reader : TokenReader) :
    reader.isDone = true ↔ reader.position = reader.tokens.length := by
  rw [TokenReader.isDone, decide_eq_true_iff]
  have hle := reader.position_le
  omega

/-- However a reader of some tokens is called, it stays within them, is done exactly at their end
and never goes back. Any call from there takes the next token and passes over that one, or it takes
none and, unless it skips, stays. The tokens that were given are among those passed over, in order
and none of them twice, and they are all of these if no call skipped. -/
theorem given_ofList (tokens : List Token) (calls : List Call) :
    (run (.ofList tokens) calls).tokens = tokens ∧
    (run (.ofList tokens) calls).position ≤ tokens.length ∧
    ((run (.ofList tokens) calls).isDone = true ↔
      (run (.ofList tokens) calls).position = tokens.length) ∧
    (∀ call, Step (run (.ofList tokens) calls) call
      (perform (run (.ofList tokens) calls) call).1
      (perform (run (.ofList tokens) calls) call).2) ∧
    (∀ more, (run (.ofList tokens) calls).position ≤
      (run (.ofList tokens) (calls ++ more)).position) ∧
    (given (.ofList tokens) calls).Sublist
      (tokens.take (run (.ofList tokens) calls).position) ∧
    ((∀ count, .skip count ∉ calls) →
      given (.ofList tokens) calls = tokens.take (run (.ofList tokens) calls).position) := by
  have htokens : (run (.ofList tokens) calls).tokens = tokens := tokens_run (.ofList tokens) calls
  obtain ⟨hsublist, hall⟩ := given_run (.ofList tokens) calls
  refine ⟨htokens, ?_, ?_, fun call ↦ step_perform _ call, fun more ↦ ?_, hsublist, hall⟩
  · have hle := (run (.ofList tokens) calls).position_le
    rwa [htokens] at hle
  · rw [isDone_iff, htokens]
  · rw [run, run, List.foldl_append, ← run]
    exact position_le_run _ more

/-- A token of the wrong kind is left to the next call. -/
example :
    let tokens := [Token.synthetic .identifier "mass", .synthetic .colon ":",
      .synthetic .integer "5"]
    let calls := [Call.require .integer, .next, .nextIf .comma, .ahead 7,
      .requireAny [.comma, .colon], .next, .next]
    given (.ofList tokens) calls = tokens ∧ (run (.ofList tokens) calls).position = 3 := by
  exact ⟨rfl, rfl⟩

end ResourceLang.Proofs.ReaderRuns
