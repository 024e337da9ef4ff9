import Mathlib.Data.List.Forall2
import ByteLayout.Program.Reader

/-!
# The grammar of layout programs

Which tokens stand for which form, as relations and without a reader:

* `form = DEFINE id | GENERATE id [WITH] | type [AS id] | type AS id -> C | literal [AS id] | WHERE
  | id -> C | id = literal`
* `C = A ([,] A)* [,]` and `A = id ( literal+ )`

An identifier, a type name and a literal need a kind and a value that suits it; of every other
token only the kind counts. `Decomposes` cuts a row of tokens into forms, one after the other, and
`Expands` says which statements a form stands for.
-/

namespace ByteLayout

namespace Token

/-- The token is of a kind and its value is this text. -/
def Spells (t : Token) (kind : TokenKind) (text : Text) : Prop :=
  t.kind = kind ∧ t.value = .text text

/-- The token stands for a literal: its value has the type of its kind. -/
inductive Denotes : Token → Literal → Prop
  /-- An integer. -/
  | integer {t : Token} {n : Int} (hk : t.kind = .integer) (hv : t.value = .integer n) :
    Denotes t (.integer n)
  /-- A text. -/
  | text {t : Token} {s : Text} (h : t.Spells .text s) : Denotes t (.text s)
  /-- A sequence of bytes. -/
  | bytes {t : Token} {bs : List UInt8} (hk : t.kind = .bytes) (hv : t.value = .bytes bs) :
    Denotes t (.bytes bs)
  /-- A reserved name. -/
  | reserved {t : Token} {name : Text} (h : t.Spells .reserved name) :
    Denotes t (.reserved name)

end Token

namespace Grammar

/-- `[AS id]` -/
inductive NameTokens : Option Text → List Token → Prop
  /-- No name. -/
  | none : NameTokens none []
  /-- A name after `AS`. -/
  | some {a t : Token} {name : Text} (ha : a.kind = .asWord) (ht : t.Spells .identifier name) :
    NameTokens (some name) [a, t]

/-- `literal+`: a single literal stands for itself, two or more are a group. -/
inductive ArgumentTokens : Expr → List Token → Prop
  /-- One literal. -/
  | one {t : Token} {l : Literal} (h : t.Denotes l) : ArgumentTokens (.literal l) [t]
  /-- Several literals. -/
  | many {ts : List Token} {ls : List Literal} (h : List.Forall₂ Token.Denotes ts ls)
    (hl : 2 ≤ ls.length) : ArgumentTokens (.group (ls.map .literal)) ts

/-- `A = id ( literal+ )` -/
inductive ClauseTokens : Clause → List Token → Prop
  /-- A name and its arguments in parentheses. -/
  | mk {t o c : Token} {attr : Text} {e : Expr} {ts : List Token}
    (ht : t.Spells .identifier attr) (ho : o.kind = .leftParen) (he : ArgumentTokens e ts)
    (hc : c.kind = .rightParen) : ClauseTokens ⟨attr, e⟩ (t :: o :: (ts ++ [c]))

/-- `A ([,] A)*` -/
inductive ClauseRow : List Clause → List Token → Prop
  /-- One clause. -/
  | one {c : Clause} {ts : List Token} (h : ClauseTokens c ts) : ClauseRow [c] ts
  /-- A clause and more clauses right after it. -/
  | cons {c : Clause} {cs : List Clause} {ts us : List Token} (h : ClauseTokens c ts)
    (hs : ClauseRow cs us) : ClauseRow (c :: cs) (ts ++ us)
  /-- A clause, a comma and more clauses. -/
  | comma {c : Clause} {cs : List Clause} {ts us : List Token} {k : Token} (h : ClauseTokens c ts)
    (hk : k.kind = .comma) (hs : ClauseRow cs us) : ClauseRow (c :: cs) (ts ++ k :: us)

/-- `C = A ([,] A)* [,]` -/
inductive ClausesTokens : List Clause → List Token → Prop
  /-- Without a comma at the end. -/
  | plain {cs : List Clause} {ts : List Token} (h : ClauseRow cs ts) : ClausesTokens cs ts
  /-- With a comma at the end. -/
  | trailing {cs : List Clause} {ts : List Token} {k : Token} (h : ClauseRow cs ts)
    (hk : k.kind = .comma) : ClausesTokens cs (ts ++ [k])

/-- The tokens of a form. -/
inductive FormTokens : Form → List Token → Prop
  /-- `DEFINE id` -/
  | group {d t : Token} {name : Text} (hd : d.kind = .defineWord)
    (ht : t.Spells .identifier name) : FormTokens (.group name) [d, t]
  /-- `GENERATE id` -/
  | generator {g t : Token} {name : Text} (hg : g.kind = .generateWord)
    (ht : t.Spells .identifier name) : FormTokens (.generator name) [g, t]
  /-- `GENERATE id WITH` -/
  | generatorWith {g t w : Token} {name : Text} (hg : g.kind = .generateWord)
    (ht : t.Spells .identifier name) (hw : w.kind = .withWord) :
    FormTokens (.generator name) [g, t, w]
  /-- `type [AS id]` -/
  | field {t : Token} {kind : Text} {name : Option Text} {ts : List Token}
    (ht : t.Spells .typeName kind) (hn : NameTokens name ts) :
    FormTokens (.field kind name) (t :: ts)
  /-- `type AS id -> C` -/
  | fieldWith {t r : Token} {kind name : Text} {cs : List Clause} {ts us : List Token}
    (ht : t.Spells .typeName kind) (hn : NameTokens (some name) ts) (hr : r.kind = .rightArrow)
    (hc : ClausesTokens cs us) : FormTokens (.fieldWith kind name cs) (t :: (ts ++ r :: us))
  /-- `literal [AS id]` -/
  | constant {t : Token} {l : Literal} {name : Option Text} {ts : List Token}
    (ht : t.Denotes l) (hn : NameTokens name ts) : FormTokens (.constant l name) (t :: ts)
  /-- `WHERE` -/
  | fieldsSection {w : Token} (hw : w.kind = .whereWord) : FormTokens .fieldsSection [w]
  /-- `id -> C` -/
  | update {t r : Token} {name : Text} {cs : List Clause} {ts : List Token}
    (ht : t.Spells .identifier name) (hr : r.kind = .rightArrow) (hc : ClausesTokens cs ts) :
    FormTokens (.update name cs) (t :: r :: ts)
  /-- `id = literal` -/
  | parameter {t a v : Token} {name : Text} {l : Literal} (ht : t.Spells .identifier name)
    (ha : a.kind = .assign) (hv : v.Denotes l) : FormTokens (.parameter name (.literal l)) [t, a, v]

/-- The statements that a form stands for. Clauses stand for a selection and an update each. -/
inductive Expands : Form → List Statement → Prop
  /-- `DEFINE id` begins a group. -/
  | group (name : Text) : Expands (.group name) [.startGroup name]
  /-- `GENERATE id [WITH]` begins a generator. -/
  | generator (name : Text) : Expands (.generator name) [.startGenerator name]
  /-- `type [AS id]` adds a field of random content. -/
  | field (kind : Text) (name : Option Text) :
    Expands (.field kind name) [.variableField kind name]
  /-- `type AS id -> C` adds a field, selects it and updates it. -/
  | fieldWith (kind name : Text) (cs : List Clause) :
    Expands (.fieldWith kind name cs) (.variableField kind (some name) :: .selectField name ::
      cs.map fun c => .updateField c.attr c.argument)
  /-- `literal [AS id]` adds a field of constant content. -/
  | constant (l : Literal) (name : Option Text) :
    Expands (.constant l name) [.constantField l name]
  /-- `WHERE` begins the section of fields. -/
  | fieldsSection : Expands .fieldsSection [.startFieldsSection]
  /-- `id -> C` selects a field and updates it. -/
  | update (name : Text) (cs : List Clause) : Expands (.update name cs)
    (.selectField name :: cs.map fun c => .updateField c.attr c.argument)
  /-- `id = literal` sets a parameter. -/
  | parameter (name : Text) (value : Expr) :
    Expands (.parameter name value) [.setParameter name value]

/-- The tokens are those of some forms, one after the other. -/
structure Decomposes (pieces : List (Form × List Token)) (ts : List Token) : Prop where
  /-- Every piece holds the tokens of its form. -/
  form : ∀ piece ∈ pieces, FormTokens piece.1 piece.2
  /-- The pieces are all there is. -/
  flatten : (pieces.map (·.2)).flatten = ts

end Grammar

end ByteLayout
