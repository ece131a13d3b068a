import ResourceLang.Proofs.ScannerPath

/-!
How resource ids are read that have names in front of their number. Such a text is one token with
the parts as they are written, unless the first of them begins with the letters of `#auto`: the
scanner tries that literal first, and the token that it gives has no parts.
-/

set_option autoImplicit false
set_option relaxedAutoImplicit false

namespace ResourceLang.Proofs.PrefixedIds

open Token Token.Scan LexemeGrammar SpelledLexemes ScannerRun ScannerPath

variable {names : List String} {number : String}

/-- A resource id as it is written: its names and its number, with dots between them. -/
def written (names : List String) (number : String) : String :=
  "#" ++ ".".intercalate (names ++ [number])

/-- The text is a single token, the resource id of the parts. -/
def ReadsAs (text : String) (parts : List String) : Prop :=
  ∃ token, tokenize text = .ok [token] ∧ token.kind = .resourceId ∧
    token.components = parts ∧ token.text = ".".intercalate parts

/-! ### Texts with a token at the front -/

/-- A text that one token takes up is that token. -/
theorem tokenize_of_cuts {text : String} {lexeme : Lexeme} {taken : List Char} {mode : Mode}
    (h : Cuts .outside text.toList ⟨lexeme, taken, [], mode⟩) :
    tokenize text = .ok [⟨lexeme, .start, none⟩] :=
  tokenize_of_path (.step (step_of_cuts (.nil _) h .start) (.stay _)) (step_nil _ _)

/-- A token that is cut off the front of a text is the first of its tokens. -/
theorem head_of_tokenize {text : String} {result : Cut} (h : Cuts .outside text.toList result)
    {tokens : List Token} (htokens : tokenize text = .ok tokens) :
    ∃ later, tokens = ⟨result.lexeme, .start, none⟩ :: later := by
  have hfirst : Scanner.step none (.ofText text) = _ := step_of_cuts (.nil _) h .start
  obtain ⟨last, after, hpath, hlast⟩ := path_of_tokenize_ok htokens
  cases hpath with
  | stay =>
    rw [hfirst] at hlast
    cases hlast
  | @step _ _ _ token later hstep _ =>
    rw [hfirst] at hstep
    obtain ⟨rfl, -⟩ := Scanner.Step.token.inj hstep
    exact ⟨later, rfl⟩

/-! ### Where the literal begins a text -/

theorem cutResourceId_auto {cs : List Char} (h : "auto".toList <+: cs) (mode : Mode) :
    ∃ rest, cutResourceId mode cs =
      .ok ⟨.plain .resourceId "auto", '#' :: "auto".toList, rest, mode⟩ := by
  obtain ⟨rest, rfl⟩ := h
  exact ⟨rest, rfl⟩

/-- The letters of the literal reach as far as the first name. -/
theorem auto_isPrefix_cons_iff {name tail : List Char} :
    "auto".toList <+: name ++ '.' :: tail ↔ "auto".toList <+: name := by
  constructor
  · intro h
    rw [List.append_cons] at h
    have hname : "auto".toList <+: name ++ ['.'] :=
      isPrefix_of_mem (c := '.') (by simp) (by decide) h
    rcases List.prefix_concat_iff.mp hname with heq | hname
    · have hdot : '.' ∈ "auto".toList := by
        rw [heq]
        simp
      exact absurd hdot (by decide)
    · exact hname
  · exact fun h ↦ h.trans (List.prefix_append _ _)

theorem not_auto_isPrefix_decimal {number : List Char} (h : IsDecimal number) :
    ¬ "auto".toList <+: number := by
  rintro ⟨rest, rfl⟩
  rcases h with hdigits | ⟨digits, hsign, -⟩
  · exact absurd (hdigits.2 'a' (by simp)) (by decide)
  · cases hsign

/-- Of what a resource id is made of, only the first name can begin with the literal. -/
theorem auto_isPrefix_iff {names : List (List Char)} {number : List Char} (h : IsDecimal number) :
    "auto".toList <+: names.flatMap (· ++ ['.']) ++ number ↔
      ∃ name ∈ names.head?, "auto".toList <+: name := by
  cases names with
  | nil => simpa using not_auto_isPrefix_decimal h
  | cons name names =>
    rw [List.flatMap_cons, List.append_assoc, List.append_assoc, List.singleton_append,
      auto_isPrefix_cons_iff]
    simp

/-! ### Written resource ids -/

theorem map_ofList_parts (names : List String) (number : String) :
    (names.map String.toList ++ [number.toList]).map String.ofList = names ++ [number] := by
  simp [Function.comp_def, String.ofList_toList]

theorem toList_written (names : List String) (number : String) :
    (written names number).toList =
      '#' :: ((names.map String.toList).flatMap (· ++ ['.']) ++ number.toList) := by
  rw [← toList_text_dotted _ _ .resourceId, map_ofList_parts, written, String.toList_append]
  rfl

/-- What a written resource id has behind its mark decides what is cut off. -/
theorem cuts_written {result : Cut}
    (h : cutResourceId .outside ((names.map String.toList).flatMap (· ++ ['.']) ++ number.toList) =
      .ok result) :
    Cuts .outside (written names number).toList result :=
  ⟨'#', _, toList_written names number, (cut_resourceId _ _).trans h⟩

theorem tokenize_written (hcount : names.length ≤ 2) (hnames : ∀ name ∈ names, IsWord name.toList)
    (hnumber : IsDecimal number.toList)
    (hauto : ∀ name ∈ names.head?, ¬ "auto".toList <+: name.toList) :
    tokenize (written names number) =
      .ok [⟨.dotted .resourceId (names ++ [number]), .start, none⟩] := by
  have hparts : ¬ "auto".toList <+:
      (names.map String.toList).flatMap (· ++ ['.']) ++ number.toList := by
    rw [auto_isPrefix_iff hnumber]
    simpa using hauto
  have hcut :=
    cutResourceId_append (by simpa using hcount) (by simpa using hnames) hnumber hparts stops_nil
    .outside
  rw [List.append_nil, map_ofList_parts] at hcut
  exact tokenize_of_cuts (cuts_written hcut)

/-- The literal is the first token of a resource id that begins with its letters. -/
theorem auto_of_tokenize_written {name : String} (hname : name ∈ names.head?)
    (hauto : "auto".toList <+: name.toList) {tokens : List Token}
    (h : tokenize (written names number) = .ok tokens) :
    ∃ later, tokens = ⟨.plain .resourceId "auto", .start, none⟩ :: later := by
  obtain ⟨others, rfl⟩ := List.head?_eq_some_iff.mp hname
  have hparts : "auto".toList <+:
      ((name :: others).map String.toList).flatMap (· ++ ['.']) ++ number.toList := by
    rw [List.map_cons, List.flatMap_cons, List.append_assoc, List.append_assoc]
    exact hauto.trans (List.prefix_append _ _)
  obtain ⟨rest, hcut⟩ := cutResourceId_auto hparts .outside
  exact head_of_tokenize (cuts_written hcut) h

theorem not_readsAs_of_auto {name : String} (hname : name ∈ names.head?)
    (hauto : "auto".toList <+: name.toList) :
    ¬ ReadsAs (written names number) (names ++ [number]) := by
  rintro ⟨token, htoken, -, hcomponents, -⟩
  obtain ⟨later, hlater⟩ := auto_of_tokenize_written hname hauto htoken
  obtain rfl := (List.cons.inj hlater).1
  have hempty : [] = names ++ [number] := hcomponents
  simp at hempty

/-- A resource id is read as it is written, its names and its number as the parts and all of it as
one token, unless its first name begins with the letters of the literal. -/
theorem readsAs_written_iff (hcount : names.length ≤ 2)
    (hnames : ∀ name ∈ names, IsWord name.toList) (hnumber : IsDecimal number.toList) :
    ReadsAs (written names number) (names ++ [number]) ↔
      ∀ name ∈ names.head?, ¬ "auto".toList <+: name.toList := by
  constructor
  · exact fun hreads name hname hauto ↦ not_readsAs_of_auto hname hauto hreads
  · exact fun hauto ↦ ⟨_, tokenize_written hcount hnames hnumber hauto, rfl, rfl, rfl⟩

/-- A first name that falls short of the literal, and a second name that begins with it. -/
theorem readsAs_written_iff_aut : ["aut", "auto_1"].length ≤ 2 ∧
    (∀ name ∈ ["aut", "auto_1"], IsWord name.toList) ∧ IsDecimal "-128".toList ∧
    ReadsAs "#aut.auto_1.-128" ["aut", "auto_1", "-128"] := by
  have hnames : ∀ name ∈ ["aut", "auto_1"], IsWord name.toList := by
    simp [IsWord, isWord]
  have hnumber : IsDecimal "-128".toList := .inr ⟨['1', '2', '8'], rfl, by simp [IsDigits]⟩
  refine ⟨by decide, hnames, hnumber, ?_⟩
  exact (readsAs_written_iff (by decide) hnames hnumber).mpr (by decide)

/-- A type whose name begins with the letters of the literal cannot be written without a
namespace. -/
theorem not_readsAs_automatic : ["automatic"].length ≤ 2 ∧
    (∀ name ∈ ["automatic"], IsWord name.toList) ∧ IsDecimal "1".toList ∧
    ¬ ReadsAs "#automatic.1" ["automatic", "1"] := by
  have hnames : ∀ name ∈ ["automatic"], IsWord name.toList := by
    simp [IsWord, isWord]
  exact ⟨by decide, hnames, .inl (by simp [IsDigits]),
    @not_readsAs_of_auto ["automatic"] "1" "automatic" rfl (by decide)⟩

end ResourceLang.Proofs.PrefixedIds
