import ByteLayout.Program.Argument
import ByteLayout.Proofs.Results
import ByteLayout.Proofs.Spelling

/-!
# Written forms are read as their words

A literal is spellable if its word is one that a text can hold, and a form is spellable if its names
and literals are, its clauses are there, and each of them has one literal or at least two.
`Form.write_reads`: a spellable form is written as a line that is read as the words of the form.
-/

namespace ByteLayout

open Lexeme

variable {rest : List CodePoint} {ws vs : List Word}

/-! ## Literals and arguments -/

namespace Literal

/-- The word of a literal. -/
def word : Literal → Word
  | integer n => (.integer, .integer n)
  | text s => (.text, .text s)
  | bytes bs => (.bytes, .bytes bs)
  | reserved name => (.reserved, .text name)

/-- A text can hold the word of the literal. -/
def Spellable (l : Literal) : Prop :=
  l.word.WellFormed

/-- What is written for a literal that can be spelled is read as its word. -/
theorem write_reads {l : Literal} (h : l.Spellable) :
    ∃ text, l.write = .ok text ∧ ∀ rest, Delimited rest → Reads text.toList [l.word] rest := by
  cases l with
  | integer n =>
    have hsigned : IsSigned64 n := h
    have hwrite := Text.writeDecimal_of_not_tooLong (not_tooLong_of_isSigned64 hsigned)
    exact ⟨_, Except.mapError_eq_ok.2 hwrite, fun rest hrest => .integer h hrest⟩
  | reserved name => exact ⟨_, rfl, fun rest hrest => .reserved h hrest⟩
  | text s =>
    obtain ⟨hne, hquote⟩ : IsQuotable s := h
    refine ⟨"\"" ++ s ++ "\"", ?_, fun rest _ => ?_⟩
    · rw [write, if_neg (by simp [hne, hquote])]
    · have htext : ("\"" ++ s ++ "\"").toList = scalar '"' :: (s.toList ++ [scalar '"']) := by simp
      rw [htext]
      exact .text ⟨hne, hquote⟩
  | bytes bs =>
    have hne : bs ≠ [] := h
    obtain ⟨b, bs, rfl⟩ := List.exists_cons_of_ne_nil hne
    refine ⟨"\x60" ++ bytesText (b :: bs) ++ "\x60", rfl, fun rest _ => ?_⟩
    have htext : ("\x60" ++ bytesText (b :: bs) ++ "\x60").toList =
        scalar '\x60' :: ((bytesText (b :: bs)).toList ++ [scalar '\x60']) := by simp
    rw [htext]
    exact .bytes hne

end Literal

/-- Joined parts are read as their words, joined by what the joint is read as. -/
theorem Reads.intercalate {joint : List CodePoint} {p : List CodePoint → Prop}
    {parts : List (List CodePoint)} {wss : List (List Word)}
    (hjoint : ∀ rest, Reads joint vs rest) (hp : ∀ rest, p (joint ++ rest))
    (h : List.Forall₂ (fun part ws => ∀ rest, p rest → Reads part ws rest) parts wss)
    (hrest : p rest) : Reads (joint.intercalate parts) (vs.intercalate wss) rest := by
  induction h with
  | nil => exact .nil
  | cons hpart hparts ih =>
    cases hparts with
    | nil => simpa using hpart rest hrest
    | cons =>
      rw [List.intercalate_cons_cons, List.intercalate_cons_cons, List.append_assoc,
        List.append_assoc]
      refine .append (hpart _ ?_) (.append (hjoint _) ih)
      rw [List.append_assoc]
      exact hp _

/-- Single members joined by nothing are a row. -/
theorem intercalate_singletons {α : Type} (xs : List α) :
    ([] : List α).intercalate (xs.map fun x => [x]) = xs := by
  induction xs with
  | nil => rfl
  | cons x xs ih =>
    cases xs with
    | nil => rfl
    | cons y ys =>
      rw [List.map_cons] at ih
      rw [List.map_cons, List.map_cons, List.intercalate_cons_cons, ih]
      rfl

namespace Expr

/-- The word of an expression that is a literal. -/
def word? : Expr → Option Word
  | literal l => some l.word
  | group _ => none

/-- The words of an expression as arguments. -/
def words (e : Expr) : List Word :=
  e.items.filterMap word?

/-- The expression can stand between parentheses: it is a literal or a group of at least two. -/
inductive Spellable : Expr → Prop
  /-- One literal. -/
  | one {l : Literal} (h : l.Spellable) : Spellable (.literal l)
  /-- Several literals. -/
  | many {ls : List Literal} (h : ∀ l ∈ ls, l.Spellable) (hl : 2 ≤ ls.length) :
    Spellable (.group (ls.map .literal))

/-- The words of a group of literals are those of the literals. -/
theorem words_group (ls : List Literal) :
    words (.group (ls.map .literal)) = ls.map Literal.word := by
  simp only [words, items]
  induction ls with
  | nil => rfl
  | cons l ls ih => simp [word?, ih]

/-- What is written for arguments is read as their words. -/
theorem writeArguments_reads {e : Expr} (context : Text) (h : e.Spellable) :
    ∃ text, e.writeArguments context = .ok text ∧
      ∀ rest, Delimited rest → Reads text.toList e.words rest := by
  cases h with
  | one h => exact Literal.write_reads h
  | @many ls h hl =>
    have hall : ∀ l ∈ ls, ∃ text, (writeScalar context ∘ literal) l = .ok text ∧
        ∀ rest, Delimited rest → Reads text.toList [l.word] rest :=
      fun l hin => Literal.write_reads (h l hin)
    obtain ⟨texts, htexts, hreads⟩ := mapM_eq_ok hall
    have hshort : ¬ (ls.map literal).length < 2 := by
      rw [List.length_map]
      omega
    refine ⟨Text.intercalate " " texts, ?_, fun rest hrest => ?_⟩
    · rw [writeArguments, if_neg hshort, List.mapM_map, htexts]
      rfl
    · have hparts : List.Forall₂ (fun part ws => ∀ rest, Delimited rest → Reads part ws rest)
          (texts.map Text.toList) ((ls.map Literal.word).map fun w => [w]) := by
        rw [List.forall₂_map_left_iff, List.map_map, List.forall₂_map_right_iff]
        exact hreads.flip
      have hread : Reads ([scalar ' '].intercalate (texts.map Text.toList))
          ([].intercalate ((ls.map Literal.word).map fun w => [w])) rest :=
        .intercalate (fun _ => .space) (fun _ => .cons (by decide) (by decide)) hparts hrest
      rw [intercalate_singletons] at hread
      rw [words_group, Text.toList_intercalate]
      exact hread

end Expr

/-! ## Clauses -/

namespace Clause

/-- The words of a clause. -/
def words (c : Clause) : List Word :=
  (.identifier, .text c.attr) :: (.leftParen, .none) :: (c.argument.words ++ [(.rightParen, .none)])

/-- The name and the argument of the clause are spellable. -/
structure Spellable (c : Clause) : Prop where
  /-- The name is an identifier. -/
  attr : IsIdentifier c.attr
  /-- The argument can stand between parentheses. -/
  argument : c.argument.Spellable

theorem write_reads {c : Clause} (h : c.Spellable) :
    ∃ text, c.write = .ok text ∧ ∀ rest, Reads text.toList c.words rest := by
  obtain ⟨text, htext, hreads⟩ := Expr.writeArguments_reads c.attr h.argument
  refine ⟨c.attr ++ "(" ++ text ++ ")", ?_, fun rest => ?_⟩
  · rw [write, htext]
    rfl
  · have hsplit : (c.attr ++ "(" ++ text ++ ")").toList =
        c.attr.toList ++ ([scalar '('] ++ (text.toList ++ [scalar ')'])) := by simp
    have hargument : Reads text.toList c.argument.words ([scalar ')'] ++ rest) :=
      hreads _ (.cons (by decide) (by decide))
    rw [hsplit]
    exact .append (.identifier h.attr (.cons (by decide) (by decide)))
      (.append .leftParen (.append hargument .rightParen))

end Clause

/-- The words of clauses with a comma between two. -/
def clausesWords (cs : List Clause) : List Word :=
  [(.comma, .none)].intercalate (cs.map Clause.words)

/-- What is written for clauses is read as their words. -/
theorem writeClauses_reads {cs : List Clause} (h : ∀ c ∈ cs, c.Spellable) :
    ∃ text, writeClauses cs = .ok text ∧ ∀ rest, Reads text.toList (clausesWords cs) rest := by
  obtain ⟨texts, htexts, hreads⟩ := mapM_eq_ok fun c hc => Clause.write_reads (h c hc)
  refine ⟨Text.intercalate ", " texts, ?_, fun rest => ?_⟩
  · rw [writeClauses, htexts]
    rfl
  · have hparts : List.Forall₂ (fun part ws => ∀ rest, True → Reads part ws rest)
        (texts.map Text.toList) (cs.map Clause.words) := by
      rw [List.forall₂_map_left_iff, List.forall₂_map_right_iff]
      exact hreads.flip.imp fun _ _ h rest _ => h rest
    have hjoint : ∀ rest, Reads [scalar ',', scalar ' '] [(.comma, .none)] rest :=
      fun rest => .append (a := [scalar ',']) .comma .space
    rw [Text.toList_intercalate]
    exact .intercalate hjoint (fun _ => trivial) hparts trivial

/-! ## Forms -/

/-- The words of a name that may be missing. -/
def nameWords : Option Text → List Word
  | none => []
  | some name => [(.asWord, .none), (.identifier, .text name)]

/-- What is written for a name is read as its words. -/
theorem writeName_reads {name : Option Text} (h : ∀ n ∈ name, IsIdentifier n)
    (hrest : Delimited rest) : Reads (writeName name).toList (nameWords name) rest := by
  cases name with
  | none => exact .nil
  | some name =>
    have hsplit : (writeName (some name)).toList =
        [scalar ' '] ++ (("AS" : Text).toList ++ ([scalar ' '] ++ name.toList)) := by
      simp [writeName]
    rw [hsplit]
    exact .append .space (.append
      (.keyword (by decide) (by decide) (.cons (by decide) (by decide)))
      (.append .space (.identifier (h name rfl) hrest)))

/-- A name that is written delimits what stands before it. -/
theorem Delimited.writeName {name : Option Text} (hrest : Delimited rest) :
    Delimited ((writeName name).toList ++ rest) := by
  cases name with
  | none => exact hrest
  | some name =>
    have hsplit : (ByteLayout.writeName (some name)).toList =
        scalar ' ' :: (("AS " : Text).toList ++ name.toList) := by simp [ByteLayout.writeName]
    rw [hsplit]
    exact .cons (by decide) (by decide)

/-- A line that is indented begins with four spaces. -/
theorem toList_indent (text : Text) :
    (indent ++ text).toList = [scalar ' ', scalar ' ', scalar ' ', scalar ' '] ++ text.toList := by
  simp [indent]

/-- The spaces in front of a line are passed over. -/
theorem indent_reads {text : Text} (h : Reads text.toList ws rest) :
    Reads (indent ++ text).toList ws rest := by
  rw [toList_indent]
  have hspaces : Reads [scalar ' ', scalar ' ', scalar ' ', scalar ' '] [] (text.toList ++ rest) :=
    .append (a := [scalar ' ']) .space
      (.append (a := [scalar ' ']) .space (.append (a := [scalar ' ']) .space .space))
  exact .append hspaces h

/-- Clauses behind an arrow. -/
theorem arrow_reads {text : Text} (h : ∀ rest, Reads text.toList ws rest) :
    Reads (" -> " ++ text).toList ((.rightArrow, .none) :: ws) rest := by
  have hsplit : (" -> " ++ text).toList =
      [scalar ' '] ++ ([scalar '-', scalar '>'] ++ ([scalar ' '] ++ text.toList)) := by simp
  rw [hsplit]
  exact .append .space (.append .rightArrow (.append .space (h rest)))

/-- An arrow delimits what stands before it. -/
theorem Delimited.arrow (text : Text) : Delimited ((" -> " ++ text).toList ++ rest) := by
  have hsplit : (" -> " ++ text).toList = scalar ' ' :: (("-> " : Text).toList ++ text.toList) := by
    simp
  rw [hsplit]
  exact .cons (by decide) (by decide)

namespace Form

/-- The words of a form. -/
def words : Form → List Word
  | group name => [(.defineWord, .none), (.identifier, .text name)]
  | generator name => [(.generateWord, .none), (.identifier, .text name), (.withWord, .none)]
  | fieldsSection => [(.whereWord, .none)]
  | field kind name => (.typeName, .text kind) :: nameWords name
  | fieldWith kind name clauses => (.typeName, .text kind) ::
    (nameWords (some name) ++ (.rightArrow, .none) :: clausesWords clauses)
  | constant literal name => literal.word :: nameWords name
  | update name clauses => (.identifier, .text name) :: (.rightArrow, .none) :: clausesWords clauses
  | parameter name value => (.identifier, .text name) :: (.assign, .none) :: value.words

/-- The names and literals of the form are spellable, and its clauses are there. -/
def Spellable : Form → Prop
  | group name | generator name => IsIdentifier name
  | fieldsSection => True
  | field kind name => Text.lower kind ∈ typeNames ∧ ∀ n ∈ name, IsIdentifier n
  | fieldWith kind name clauses =>
    Text.lower kind ∈ typeNames ∧ IsIdentifier name ∧ clauses ≠ [] ∧ ∀ c ∈ clauses, c.Spellable
  | constant literal name => literal.Spellable ∧ ∀ n ∈ name, IsIdentifier n
  | update name clauses => IsIdentifier name ∧ clauses ≠ [] ∧ ∀ c ∈ clauses, c.Spellable
  | parameter name value => IsIdentifier name ∧ ∃ l, value = .literal l ∧ l.Spellable

/-- A spellable form is written as a line that is read as the words of the form. -/
theorem write_reads {f : Form} (h : f.Spellable) :
    ∃ text, f.write = .ok text ∧ ∀ rest, Delimited rest → Reads text.toList f.words rest := by
  cases f with
  | group name =>
    refine ⟨"DEFINE " ++ name, rfl, fun rest hrest => ?_⟩
    have hsplit : ("DEFINE " ++ name).toList =
        ("DEFINE" : Text).toList ++ ([scalar ' '] ++ name.toList) := by simp
    rw [hsplit]
    exact .append (.keyword (by decide) (by decide) (.cons (by decide) (by decide)))
      (.append .space (.identifier h hrest))
  | generator name =>
    refine ⟨"GENERATE " ++ name ++ " WITH", rfl, fun rest hrest => ?_⟩
    have hsplit : ("GENERATE " ++ name ++ " WITH").toList =
        ("GENERATE" : Text).toList ++
          ([scalar ' '] ++ (name.toList ++ ([scalar ' '] ++ ("WITH" : Text).toList))) := by simp
    rw [hsplit]
    exact .append (.keyword (by decide) (by decide) (.cons (by decide) (by decide)))
      (.append .space (.append (.identifier h (.cons (by decide) (by decide)))
        (.append .space (.keyword (by decide) (by decide) hrest))))
  | fieldsSection =>
    exact ⟨"WHERE", rfl, fun rest hrest => .keyword (by decide) (by decide) hrest⟩
  | field kind name =>
    refine ⟨indent ++ kind ++ writeName name, rfl, fun rest hrest => ?_⟩
    rw [Text.append_assoc]
    refine indent_reads ?_
    rw [Text.toList_append]
    exact .append (.typeName h.1 hrest.writeName) (writeName_reads h.2 hrest)
  | fieldWith kind name clauses =>
    obtain ⟨hkind, hname, -, hclauses⟩ := h
    obtain ⟨text, htext, hreads⟩ := writeClauses_reads hclauses
    refine ⟨indent ++ kind ++ writeName (some name) ++ " -> " ++ text, ?_, fun rest _ => ?_⟩
    · rw [write, htext]
      rfl
    · rw [Text.append_assoc, Text.append_assoc, Text.append_assoc]
      refine indent_reads ?_
      rw [Text.toList_append, Text.toList_append]
      have hsome : ∀ n ∈ some name, IsIdentifier n := by
        rintro n ⟨⟩
        exact hname
      refine (Reads.typeName hkind ?_).append
        (.append (writeName_reads hsome (.arrow text)) (arrow_reads hreads))
      rw [List.append_assoc]
      exact Delimited.writeName (.arrow text)
  | constant literal name =>
    obtain ⟨text, htext, hreads⟩ := Literal.write_reads h.1
    refine ⟨indent ++ text ++ writeName name, ?_, fun rest hrest => ?_⟩
    · rw [write, htext]
      rfl
    · rw [Text.append_assoc]
      refine indent_reads ?_
      rw [Text.toList_append]
      exact .append (hreads _ hrest.writeName) (writeName_reads h.2 hrest)
  | update name clauses =>
    obtain ⟨hname, -, hclauses⟩ := h
    obtain ⟨text, htext, hreads⟩ := writeClauses_reads hclauses
    refine ⟨indent ++ name ++ " -> " ++ text, ?_, fun rest _ => ?_⟩
    · rw [write, htext]
      rfl
    · rw [Text.append_assoc, Text.append_assoc]
      refine indent_reads ?_
      rw [Text.toList_append]
      exact .append (.identifier hname (.arrow text)) (arrow_reads hreads)
  | parameter name value =>
    obtain ⟨hname, l, rfl, hl⟩ := h
    obtain ⟨text, htext, hreads⟩ := Literal.write_reads hl
    refine ⟨indent ++ name ++ " = " ++ text, ?_, fun rest hrest => ?_⟩
    · rw [write, Expr.writeScalar, htext]
      rfl
    · rw [Text.append_assoc, Text.append_assoc]
      refine indent_reads ?_
      have hsplit : (name ++ (" = " ++ text)).toList =
          name.toList ++ ([scalar ' '] ++ ([scalar '='] ++ ([scalar ' '] ++ text.toList))) := by
        simp
      rw [hsplit]
      exact .append (.identifier hname (.cons (by decide) (by decide)))
        (.append .space (.append .assign (.append .space (hreads rest hrest))))

end Form

/-! ## Lines -/

/-- Spellable forms are written as lines that are read as the words of the forms. -/
theorem Form.writeAll_reads {fs : List Form} (h : ∀ f ∈ fs, f.Spellable) :
    ∃ lines, fs.mapM Form.write = .ok lines ∧
      Reads (Text.join (lines.map (· ++ "\n"))).toList (fs.flatMap Form.words) [] := by
  obtain ⟨lines, hlines, hreads⟩ := mapM_eq_ok fun f hf => Form.write_reads (h f hf)
  refine ⟨lines, hlines, ?_⟩
  rw [Text.toList_join]
  clear hlines
  induction hreads with
  | nil => exact .nil
  | cons hline _ ih =>
    rw [List.map_cons, List.flatMap_cons, List.flatMap_cons, Text.toList_append]
    have hend : ("\n" : Text).toList = [scalar '\n'] := by simp
    rw [hend, List.append_assoc]
    refine .append (hline _ ?_) (Reads.lineEnd.append (ih ?_))
    · exact .cons (by decide) (by decide)
    · exact fun f hf => h f (List.mem_cons_of_mem _ hf)

end ByteLayout
