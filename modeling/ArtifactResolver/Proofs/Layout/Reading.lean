import Mathlib.Data.List.Forall2
import ArtifactResolver.Layout

/-!
# How patterns are read

Parentheses divide a pattern into pieces and brackets divide a piece into segments, both in the same
way: what is opened is closed by the next character that closes, what is opened and never closed
stands for itself, and so does what closes without having been opened. Every text divides in exactly
one way, and what a pattern is rendered as is the texts of its parts one after the other, into which
values are put as they are.
-/

namespace ArtifactResolver.Layout

/-! ## Dividing text -/

section Divided

variable {α : Type} {opening closing : Char} {outside inside : List Char → α}

/-- The parts of a text that lie outside and inside of pairs of an opening and a closing
character. -/
inductive Divided (opening closing : Char) (outside inside : List Char → α) :
    List Char → List α → Prop where
  /-- Nothing is opened. -/
  | whole {text : List Char} (h : opening ∉ text) :
      Divided opening closing outside inside text [outside text]
  /-- What is opened is never closed. It starts a last part, which lies outside. -/
  | unclosed {before rest : List Char} (hbefore : opening ∉ before) (hrest : closing ∉ rest) :
      Divided opening closing outside inside (before ++ opening :: rest)
        [outside before, outside (opening :: rest)]
  /-- What is opened is closed by the next character that closes. -/
  | pair {before between after : List Char} {parts : List α} (hbefore : opening ∉ before)
      (hbetween : closing ∉ between) (hafter : Divided opening closing outside inside after parts) :
      Divided opening closing outside inside (before ++ opening :: (between ++ closing :: after))
        (outside before :: inside between :: parts)

theorem split_at_first {c : Char} {before before' after after' : List Char} (h : c ∉ before)
    (h' : c ∉ before') (heq : before ++ c :: after = before' ++ c :: after') :
    before = before' ∧ after = after' := by
  induction before generalizing before' with
  | nil =>
    cases before' with
    | nil => exact ⟨rfl, (List.cons.inj heq).2⟩
    | cons d before' =>
      obtain ⟨rfl, -⟩ := List.cons.inj heq
      exact absurd List.mem_cons_self h'
  | cons d before ih =>
    cases before' with
    | nil =>
      obtain ⟨rfl, -⟩ := List.cons.inj heq
      exact absurd List.mem_cons_self h
    | cons d' before' =>
      obtain ⟨rfl, hrest⟩ := List.cons.inj heq
      obtain ⟨hbefore, hafter⟩ := ih (fun hmem => h (List.mem_cons_of_mem _ hmem))
        (fun hmem => h' (List.mem_cons_of_mem _ hmem)) hrest
      exact ⟨congrArg _ hbefore, hafter⟩

/-- A text divides in one way only. -/
theorem Divided.unique {text : List Char} {parts parts' : List α}
    (h : Divided opening closing outside inside text parts)
    (h' : Divided opening closing outside inside text parts') : parts = parts' := by
  induction h generalizing parts' with
  | @whole whole hnone =>
    generalize htext : whole = text at h'
    cases h' with
    | whole => rfl
    | unclosed => exact absurd (htext ▸ by simp) hnone
    | pair => exact absurd (htext ▸ by simp) hnone
  | @unclosed before rest hbefore hrest =>
    generalize htext : before ++ opening :: rest = text at h'
    cases h' with
    | whole hnone => exact absurd (htext ▸ by simp) hnone
    | unclosed hbefore' =>
      obtain ⟨rfl, rfl⟩ := split_at_first hbefore hbefore' htext
      rfl
    | pair hbefore' =>
      obtain ⟨-, rfl⟩ := split_at_first hbefore hbefore' htext
      exact absurd (by simp) hrest
  | @pair before between after parts hbefore hbetween _ ih =>
    generalize htext : before ++ opening :: (between ++ closing :: after) = text at h'
    cases h' with
    | whole hnone => exact absurd (htext ▸ by simp) hnone
    | unclosed hbefore' hrest' =>
      obtain ⟨-, rfl⟩ := split_at_first hbefore hbefore' htext
      exact absurd (by simp) hrest'
    | pair hbefore' hbetween' hafter' =>
      obtain ⟨rfl, hrest⟩ := split_at_first hbefore hbefore' htext
      obtain ⟨rfl, rfl⟩ := split_at_first hbetween hbetween' hrest
      rw [ih hafter']

end Divided

theorem not_mem_of_breakAt? {c : Char} {cs : List Char} (h : breakAt? c cs = none) : c ∉ cs := by
  induction cs with
  | nil => exact List.not_mem_nil
  | cons d rest ih =>
    rw [breakAt?] at h
    split at h
    · cases h
    · next hne =>
      rw [List.mem_cons, not_or]
      exact ⟨Ne.symm hne, ih (Option.map_eq_none_iff.1 h)⟩

/-- The segments of a piece are its division at brackets. -/
theorem divided_segments (piece : List Char) :
    Divided '[' ']' .literal .token piece (segments piece) := by
  fun_induction segments piece with
  | case1 piece hopen => exact .whole (not_mem_of_breakAt? hopen)
  | case2 piece before rest hopen hclose =>
    obtain ⟨rfl, hbefore⟩ := eq_of_breakAt? hopen
    exact .unclosed hbefore (not_mem_of_breakAt? hclose)
  | case3 piece before rest hopen name after hclose ih =>
    obtain ⟨rfl, hbefore⟩ := eq_of_breakAt? hopen
    obtain ⟨rfl, hname⟩ := eq_of_breakAt? hclose
    exact .pair hbefore hname ih

/-- The pieces of a pattern are its division at parentheses. -/
theorem divided_pieces (pattern : List Char) :
    Divided '(' ')' .plain .optional pattern (pieces pattern) := by
  fun_induction pieces pattern with
  | case1 pattern hopen => exact .whole (not_mem_of_breakAt? hopen)
  | case2 pattern before rest hopen hclose =>
    obtain ⟨rfl, hbefore⟩ := eq_of_breakAt? hopen
    exact .unclosed hbefore (not_mem_of_breakAt? hclose)
  | case3 pattern before rest hopen inner after hclose ih =>
    obtain ⟨rfl, hbefore⟩ := eq_of_breakAt? hopen
    obtain ⟨rfl, hinner⟩ := eq_of_breakAt? hclose
    exact .pair hbefore hinner ih

theorem segments_eq_iff {piece : List Char} {parts : List Segment} :
    segments piece = parts ↔ Divided '[' ']' .literal .token piece parts := by
  constructor
  · rintro rfl
    exact divided_segments piece
  · exact (divided_segments piece).unique

theorem pieces_eq_iff {pattern : List Char} {parts : List Piece} :
    pieces pattern = parts ↔ Divided '(' ')' .plain .optional pattern parts := by
  constructor
  · rintro rfl
    exact divided_pieces pattern
  · exact (divided_pieces pattern).unique

/-! ## Filling in values -/

/-- The table has an entry for the name, and this is the first one. -/
def Tokens.Binds (tokens : Tokens) (name : List Char) (value : Option String) : Prop :=
  ∃ before after, tokens = before ++ (String.ofList name, value) :: after ∧
    ∀ entry ∈ before, entry.1 ≠ String.ofList name

/-- The table has no entry for the name. -/
def Tokens.Omits (tokens : Tokens) (name : List Char) : Prop :=
  ∀ entry ∈ tokens, entry.1 ≠ String.ofList name

variable {tokens : Tokens} {name : List Char}

theorem Tokens.value?_eq_some_iff {value : Option String} :
    tokens.value? name = some value ↔ tokens.Binds name value := by
  rw [value?, List.lookup_eq_some_iff, Binds]
  simp only [bne_iff_ne, ne_comm (a := String.ofList name)]

theorem Tokens.value?_eq_none_iff : tokens.value? name = none ↔ tokens.Omits name := by
  rw [value?, List.lookup_eq_none_iff, Omits]
  simp only [bne_iff_ne, ne_comm (a := String.ofList name)]

/-- What a segment is rendered as. -/
inductive Segment.RendersAs (tokens : Tokens) : Segment → List Char → Prop where
  /-- Text stands for itself. -/
  | literal (text : List Char) : RendersAs tokens (.literal text) text
  /-- A known token stands for its value, whatever that is. -/
  | value {name : List Char} {value : String} (h : tokens.Binds name (some value)) :
      RendersAs tokens (.token name) value.toList
  /-- A known token without a value stands for nothing. -/
  | blank {name : List Char} (h : tokens.Binds name none) : RendersAs tokens (.token name) []
  /-- An unknown token stands for itself, with its brackets. -/
  | unknown {name : List Char} (h : tokens.Omits name) :
      RendersAs tokens (.token name) ('[' :: name ++ [']'])

/-- What parts are rendered as, one after the other. -/
def RenderAs {α : Type} (part : α → List Char → Prop) (parts : List α) (out : List Char) : Prop :=
  ∃ outs, List.Forall₂ part parts outs ∧ outs.flatten = out

/-- What the text of a piece is rendered as. -/
def TextRendersAs (tokens : Tokens) (text out : List Char) : Prop :=
  ∃ parts, Divided '[' ']' .literal .token text parts ∧
    RenderAs (Segment.RendersAs tokens) parts out

/-- The text of a piece has a known token without a value. -/
def HasBlank (tokens : Tokens) (text : List Char) : Prop :=
  ∃ parts name, Divided '[' ']' .literal .token text parts ∧ Segment.token name ∈ parts ∧
    tokens.Binds name none

/-- What a piece is rendered as. -/
inductive Piece.RendersAs (tokens : Tokens) : Piece → List Char → Prop where
  /-- An ordinary piece is always there. -/
  | plain {text out : List Char} (h : TextRendersAs tokens text out) :
      RendersAs tokens (.plain text) out
  /-- A piece in parentheses is there if it has no known token without a value. -/
  | present {text out : List Char} (hblank : ¬ HasBlank tokens text)
      (h : TextRendersAs tokens text out) : RendersAs tokens (.optional text) out
  /-- If it has one, nothing at all is there. -/
  | absent {text : List Char} (hblank : HasBlank tokens text) :
      RendersAs tokens (.optional text) []

theorem Segment.render_eq_iff {segment : Segment} {out : List Char} :
    segment.render tokens = out ↔ segment.RendersAs tokens out := by
  constructor
  · rintro rfl
    cases segment with
    | literal text => exact .literal text
    | token name =>
      rw [render]
      split
      · next value hvalue => exact .value (Tokens.value?_eq_some_iff.1 hvalue)
      · next hvalue => exact .blank (Tokens.value?_eq_some_iff.1 hvalue)
      · next hvalue => exact .unknown (Tokens.value?_eq_none_iff.1 hvalue)
  · intro h
    cases h with
    | literal => rfl
    | value h => rw [render, Tokens.value?_eq_some_iff.2 h]
    | blank h => rw [render, Tokens.value?_eq_some_iff.2 h]
    | unknown h => rw [render, Tokens.value?_eq_none_iff.2 h]

/-- Parts that are rendered by a function are rendered by it one after the other. -/
theorem flatMap_eq_iff {α : Type} {part : α → List Char → Prop} {f : α → List Char}
    (h : ∀ a out, f a = out ↔ part a out) {parts : List α} {out : List Char} :
    parts.flatMap f = out ↔ RenderAs part parts out := by
  have hpart : part = fun a out => f a = out := by
    funext a out
    exact propext (h a out).symm
  have houts : ∀ outs, List.Forall₂ part parts outs ↔ parts.map f = outs := by
    intro outs
    rw [hpart, ← List.forall₂_map_left_iff (R := Eq), List.forall₂_eq_eq_eq]
  unfold RenderAs
  simp only [houts, List.flatMap_def, exists_eq_left']

theorem textRendersAs_iff {text out : List Char} :
    (segments text).flatMap (Segment.render tokens) = out ↔ TextRendersAs tokens text out := by
  rw [flatMap_eq_iff fun _ _ => Segment.render_eq_iff]
  unfold TextRendersAs
  simp only [← segments_eq_iff, exists_eq_left']

theorem any_isBlank_iff {text : List Char} :
    (segments text).any (Segment.isBlank tokens) = true ↔ HasBlank tokens text := by
  have hblank : ∀ segment : Segment, segment.isBlank tokens = true ↔
      ∃ name, segment = .token name ∧ tokens.Binds name none := by
    intro segment
    cases segment with
    | literal text => simp [Segment.isBlank]
    | token name => simp [Segment.isBlank, ← Tokens.value?_eq_some_iff]
  unfold HasBlank
  simp only [List.any_eq_true, hblank, ← segments_eq_iff]
  constructor
  · rintro ⟨_, hmem, name, rfl, hbinds⟩
    exact ⟨_, name, rfl, hmem, hbinds⟩
  · rintro ⟨_, name, rfl, hmem, hbinds⟩
    exact ⟨_, hmem, name, rfl, hbinds⟩

theorem Piece.render_eq_iff {piece : Piece} {out : List Char} :
    piece.render tokens = out ↔ piece.RendersAs tokens out := by
  cases piece with
  | plain text =>
    rw [render, textRendersAs_iff]
    constructor
    · exact .plain
    · intro h
      cases h with
      | plain htext => exact htext
  | optional text =>
    by_cases hblank : HasBlank tokens text
    · rw [render, if_pos (any_isBlank_iff.2 hblank)]
      constructor
      · rintro rfl
        exact .absent hblank
      · intro h
        cases h with
        | present hnone => exact absurd hblank hnone
        | absent => rfl
    · rw [render, if_neg (mt any_isBlank_iff.1 hblank), textRendersAs_iff]
      constructor
      · exact .present hblank
      · intro h
        cases h with
        | present _ htext => exact htext
        | absent hsome => exact absurd hsome hblank

/-- What a pattern is rendered as. -/
def PatternRendersAs (tokens : Tokens) (pattern out : List Char) : Prop :=
  ∃ parts, Divided '(' ')' .plain .optional pattern parts ∧
    RenderAs (Piece.RendersAs tokens) parts out

/-- A pattern is rendered as the texts of its pieces, with any table of tokens, and as nothing
else. -/
theorem render_eq_iff_rendersAs {pattern out : List Char} :
    render tokens pattern = out ↔ PatternRendersAs tokens pattern out := by
  rw [render, flatMap_eq_iff fun _ _ => Piece.render_eq_iff]
  unfold PatternRendersAs
  simp only [← pieces_eq_iff, exists_eq_left']

/-- What closes without having been opened, values that look like tokens, a piece that is left out,
and one that is never closed. -/
example : render [("a", some "[a](b)"), ("b", none)] "x)[a](-[b])[c]]([a".toList =
    "x)[a](b)[c]]([a".toList := by
  decide +kernel

end ArtifactResolver.Layout
