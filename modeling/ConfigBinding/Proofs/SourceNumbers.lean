import Mathlib.Data.List.Basic
import ConfigBinding.Expr.Printer
import ConfigBinding.Source.Location
import ConfigBinding.Statement.Parser

/-!
# The number of a source

What is read from a text does not depend on the number of its source, except that this number stands
in every span. Each step of the readers commutes with the change of the number, and so do the
readers of whole sources, in success and in failure.

Results:
1. `Statement.parseSource_inFile`: a source under another number gives the same statements or the
   same report, under that number.
2. `Statement.parseAssignmentText_inFile`: so does a single assignment.
-/

namespace ConfigBinding

/-! ## Moving spans -/

namespace Expr

theorem mapSpans_mapSpans (first second : Span → Span) (e : Expr) :
    (e.mapSpans first).mapSpans second = e.mapSpans fun span => second (first span) := by
  induction e using Expr.induction with
  | literal | macroRef | reference => rfl
  | list items span ih =>
    simp only [mapSpans, mapSpansInItems_eq, List.map_map, Function.comp_def]
    rw [List.map_congr_left ih]
  | tuple items span ih =>
    simp only [mapSpans, mapSpansInItems_eq, List.map_map, Function.comp_def]
    rw [List.map_congr_left ih]
  | map entries span ih =>
    simp only [mapSpans, mapSpansInEntries_eq, List.map_map, Function.comp_def]
    rw [List.map_congr_left fun entry member => congrArg (Prod.mk entry.1) (ih entry member)]

theorem mapReferences_mapSpans (rename : DottedName → DottedName) (move : Span → Span) (e : Expr) :
    (e.mapSpans move).mapReferences rename = (e.mapReferences rename).mapSpans move := by
  induction e using Expr.induction with
  | literal | macroRef | reference => rfl
  | list items span ih =>
    simp only [mapSpans, mapReferences, mapSpansInItems_eq, mapReferencesInItems_eq, List.map_map,
      Function.comp_def]
    rw [List.map_congr_left ih]
  | tuple items span ih =>
    simp only [mapSpans, mapReferences, mapSpansInItems_eq, mapReferencesInItems_eq, List.map_map,
      Function.comp_def]
    rw [List.map_congr_left ih]
  | map entries span ih =>
    simp only [mapSpans, mapReferences, mapSpansInEntries_eq, mapReferencesInEntries_eq,
      List.map_map, Function.comp_def]
    rw [List.map_congr_left fun entry member => congrArg (Prod.mk entry.1) (ih entry member)]

theorem macroRefs_mapSpans (move : Span → Span) (e : Expr) :
    (e.mapSpans move).macroRefs = e.macroRefs.map (Prod.map id move) := by
  induction e using Expr.induction with
  | literal | reference => rfl
  | macroRef name span =>
    simp only [mapSpans, macroRefs]
    split <;> rfl
  | list items span ih =>
    simp only [mapSpans, macroRefs, mapSpansInItems_eq, macroRefsOfItems_eq, List.map_flatMap,
      List.flatMap_map]
    exact List.flatMap_congr ih
  | tuple items span ih =>
    simp only [mapSpans, macroRefs, mapSpansInItems_eq, macroRefsOfItems_eq, List.map_flatMap,
      List.flatMap_map]
    exact List.flatMap_congr ih
  | map entries span ih =>
    simp only [mapSpans, macroRefs, mapSpansInEntries_eq, macroRefsOfEntries_eq, List.map_flatMap,
      List.flatMap_map]
    exact List.flatMap_congr ih

theorem macroRefs_withoutSpans (e : Expr) :
    e.withoutSpans.macroRefs.map Prod.fst = e.macroRefs.map Prod.fst := by
  unfold withoutSpans
  rw [macroRefs_mapSpans, List.map_map]
  rfl

theorem references_mapSpans (move : Span → Span) (e : Expr) :
    (e.mapSpans move).references = e.references := by
  induction e using Expr.induction with
  | literal | macroRef | reference => rfl
  | list items span ih =>
    simp only [mapSpans, references, mapSpansInItems_eq, referencesOfItems_eq, List.flatMap_map]
    exact List.flatMap_congr ih
  | tuple items span ih =>
    simp only [mapSpans, references, mapSpansInItems_eq, referencesOfItems_eq, List.flatMap_map]
    exact List.flatMap_congr ih
  | map entries span ih =>
    simp only [mapSpans, references, mapSpansInEntries_eq, referencesOfEntries_eq,
      List.flatMap_map]
    exact List.flatMap_congr ih

/-- What is written for an expression does not depend on where it stands. -/
theorem toText_mapSpans (move : Span → Span) (e : Expr) : (e.mapSpans move).toText = e.toText := by
  induction e using Expr.induction with
  | literal | macroRef | reference => rfl
  | list items span ih =>
    simp only [mapSpans, toText, mapSpansInItems_eq, toTexts_eq, List.map_map, Function.comp_def]
    rw [List.map_congr_left ih]
  | tuple items span ih =>
    simp only [mapSpans, toText, mapSpansInItems_eq, toTexts_eq, List.map_map, Function.comp_def]
    rw [List.map_congr_left ih]
  | map entries span ih =>
    simp only [mapSpans, toText, mapSpansInEntries_eq, entryTexts_eq, List.map_map,
      Function.comp_def]
    rw [List.map_congr_left fun entry member => congrArg _ (ih entry member)]

end Expr

/-! ## Changing the number -/

/-- The same bytes of the source with another number. -/
def Span.inFile (file : Nat) (span : Span) : Span := { span with file := file }

/-- The place at which a span of the source starts. -/
def SourceFile.location (source : SourceFile) (span : Span) : Location :=
  let (line, column) := source.lineCol span.start
  ⟨source.name, line, column⟩

theorem SourceMap.location_inFile {sources : SourceMap} {n : Nat} {source : SourceFile}
    (found : sources.files[n]? = some source) (span : Span) :
    sources.location (span.inFile n) = source.location span := by
  have file : sources.file (span.inFile n).file = source := by
    show sources.files[n]?.getD _ = source
    rw [found]
    rfl
  unfold location
  rw [file]
  rfl

def Expr.inFile (file : Nat) : Expr → Expr := Expr.mapSpans (Span.inFile file)

def SyntaxError.inFile (file : Nat) (error : SyntaxError) : SyntaxError :=
  { error with span := error.span.inFile file }

def BindingBody.inFile (file : Nat) : BindingBody → BindingBody
  | .single param value => .single param (value.inFile file)
  | .block entries span => .block (entries.map (Prod.map id (Expr.inFile file))) (span.inFile file)

def StatementBody.inFile (file : Nat) : StatementBody → StatementBody
  | .macroDef name value => .macroDef name (value.inFile file)
  | .binding bound => .binding { bound with body := bound.body.inFile file }
  | body => body

def Statement.inFile (file : Nat) (statement : Statement) : Statement :=
  ⟨statement.body.inFile file, statement.span.inFile file⟩

/-- What a reader gives, with the number changed in a report and by `move` in a success. -/
def renumber {α β : Type} (file : Nat) (move : α → β) : Except SyntaxError α → Except SyntaxError β
  | .ok a => .ok (move a)
  | .error error => .error (error.inFile file)

variable {α β γ δ : Type} {file : Nat}

/-- Steps that commute with the change of the number can be made one after the other. -/
theorem renumber_bind {move : α → β} {moveNext : γ → δ} {read : Except SyntaxError α}
    {next : α → Except SyntaxError γ} {nextMoved : β → Except SyntaxError δ}
    (commutes : ∀ a, nextMoved (move a) = renumber file moveNext (next a)) :
    renumber file move read >>= nextMoved = renumber file moveNext (read >>= next) := by
  cases read with
  | ok a => exact commutes a
  | error error => rfl

theorem renumber_ite {p : Prop} [Decidable p] {move : α → β}
    {yes no : Except SyntaxError α} {yesMoved noMoved : Except SyntaxError β}
    (yesCommutes : yesMoved = renumber file move yes)
    (noCommutes : noMoved = renumber file move no) :
    (if p then yesMoved else noMoved) = renumber file move (if p then yes else no) := by
  split
  · exact yesCommutes
  · exact noCommutes

namespace Cursor

/-- The same place in the source with another number. -/
def inFile (file : Nat) (c : Cursor) : Cursor := { c with file := file }

/-- What was read up to a cursor, with the number changed in both. -/
abbrev movePair (file : Nat) (move : α → β) : α × Cursor → β × Cursor :=
  Prod.map move (inFile file)

/-! ## Cursors -/

@[simp] theorem peek?_inFile (c : Cursor) : (c.inFile file).peek? = c.peek? := rfl

@[simp] theorem sees_inFile (c : Cursor) (m : Mark) : (c.inFile file).sees m = c.sees m := rfl

@[simp] theorem rest_inFile (c : Cursor) : (c.inFile file).rest = c.rest := rfl

@[simp] theorem atEnd_inFile (c : Cursor) : (c.inFile file).atEnd = c.atEnd := rfl

@[simp] theorem spanTo_inFile (c later : Cursor) :
    (c.inFile file).spanTo (later.inFile file) = (c.spanTo later).inFile file := rfl

@[simp] theorem before_inFile (c : Cursor) : (c.inFile file).before = c.before.inFile file := rfl

@[simp] theorem advance_inFile (c : Cursor) :
    (c.inFile file).advance = c.advance.inFile file := by
  obtain ⟨_, _, _, rest⟩ := c
  cases rest <;> rfl

@[simp] theorem here_inFile (c : Cursor) : (c.inFile file).here = c.here.inFile file := by
  obtain ⟨_, _, _, rest⟩ := c
  cases rest <;> rfl

@[simp] theorem unexpected_inFile (c : Cursor) (place : SyntaxError.Place) :
    (c.inFile file).unexpected place = (c.unexpected place).inFile file := by
  rw [unexpected, here_inFile]
  rfl

theorem skip_inFile (m : Mark) (c : Cursor) :
    (c.inFile file).skip m = (c.skip m).inFile file := by
  unfold skip
  rw [sees_inFile, advance_inFile]
  split <;> rfl

theorem expect_inFile (m : Mark) (c : Cursor) :
    (c.inFile file).expect m = renumber file (inFile file) (c.expect m) := by
  unfold expect
  rw [sees_inFile, advance_inFile, here_inFile]
  split <;> rfl

theorem expectName_inFile (place : SyntaxError.Place) (c : Cursor) :
    (c.inFile file).expectName place = renumber file (movePair file id) (c.expectName place) := by
  unfold expectName
  rw [peek?_inFile, advance_inFile, unexpected_inFile]
  split <;> rfl

theorem segments_inFile (place : SyntaxError.Place) (fuel : Nat) (c : Cursor) :
    segments place fuel (c.inFile file) =
      renumber file (movePair file id) (segments place fuel c) := by
  induction fuel generalizing c with
  | zero => rfl
  | succ fuel ih =>
    unfold segments
    rw [sees_inFile, advance_inFile, expectName_inFile]
    split
    · refine renumber_bind fun (_, c) => ?_
      dsimp only [Prod.map]
      rw [ih]
      exact renumber_bind fun _ => rfl
    · rfl

theorem dotted_inFile (place : SyntaxError.Place) (c : Cursor) :
    (c.inFile file).dotted place = renumber file (movePair file id) (c.dotted place) := by
  unfold dotted
  rw [expectName_inFile]
  refine renumber_bind fun (_, c) => ?_
  dsimp only [Prod.map]
  rw [rest_inFile, segments_inFile]
  exact renumber_bind fun _ => rfl

theorem scopedRest_inFile (place : SyntaxError.Place) {blame : Cursor → Span}
    (blamed : ∀ c : Cursor, blame (c.inFile file) = (blame c).inFile file) (fuel : Nat)
    (scope : List String) (name : DottedName) (c : Cursor) :
    scopedRest place blame fuel scope name (c.inFile file) =
      renumber file (movePair file id) (scopedRest place blame fuel scope name c) := by
  induction fuel generalizing scope name c with
  | zero => rfl
  | succ fuel ih =>
    unfold scopedRest
    rw [sees_inFile, advance_inFile, dotted_inFile, blamed]
    split
    · split
      · exact renumber_bind fun (next, after) => ih _ next after
      · rfl
    · rfl

theorem scopedName_inFile (place : SyntaxError.Place) {blame : Cursor → Span}
    (blamed : ∀ c : Cursor, blame (c.inFile file) = (blame c).inFile file) (outer : List String)
    (c : Cursor) :
    (c.inFile file).scopedName place blame outer =
      renumber file (movePair file id) (c.scopedName place blame outer) := by
  unfold scopedName
  rw [dotted_inFile]
  refine renumber_bind fun (name, c) => ?_
  dsimp only [Prod.map]
  rw [rest_inFile, id, scopedRest_inFile place blamed]
  exact renumber_bind fun _ => rfl

theorem strings_inFile (fuel : Nat) (c : Cursor) :
    strings fuel (c.inFile file) = movePair file id (strings fuel c) := by
  induction fuel generalizing c with
  | zero => rfl
  | succ fuel ih =>
    unfold strings
    rw [peek?_inFile, advance_inFile, ih]
    split <;> rfl

end Cursor

/-! ## Expressions -/

namespace Expr

open Cursor (movePair)

theorem parseOuterScope_inFile (fuel : Nat) (c : Cursor) :
    parseOuterScope fuel (c.inFile file) =
      renumber file (movePair file id) (parseOuterScope fuel c) := by
  induction fuel generalizing c with
  | zero =>
    unfold parseOuterScope
    rw [Cursor.unexpected_inFile]
    rfl
  | succ fuel ih =>
    unfold parseOuterScope
    rw [Cursor.expectName_inFile]
    refine renumber_bind fun (segment, c) => ?_
    dsimp only [Prod.map]
    rw [Cursor.expect_inFile]
    refine renumber_bind fun c => ?_
    rw [Cursor.sees_inFile, ih]
    split
    · rfl
    · exact renumber_bind fun _ => rfl

theorem parseReference_inFile (outer : List String) (c : Cursor) :
    parseReference outer (c.inFile file) =
      renumber file (movePair file id) (parseReference outer c) := by
  unfold parseReference
  rw [Cursor.scopedName_inFile .reference Cursor.before_inFile]
  refine renumber_bind fun ((scope, symbol), c) => ?_
  simp only [Prod.map, id, Cursor.sees_inFile, Cursor.advance_inFile, Cursor.expect_inFile]
  split
  · exact renumber_bind fun _ => rfl
  · rfl

theorem inFile_withSpan (e : Expr) (span : Span) :
    (e.withSpan span).inFile file = (e.inFile file).withSpan (span.inFile file) := by
  cases e <;> rfl

theorem inFile_list (items : List Expr) (span : Span) :
    (Expr.list items span).inFile file =
      .list (items.map (Expr.inFile file)) (span.inFile file) := by
  unfold inFile
  rw [mapSpans, mapSpansInItems_eq]

theorem inFile_tuple (items : List Expr) (span : Span) :
    (Expr.tuple items span).inFile file =
      .tuple (items.map (Expr.inFile file)) (span.inFile file) := by
  unfold inFile
  rw [mapSpans, mapSpansInItems_eq]

theorem inFile_map (entries : List (String × Expr)) (span : Span) :
    (Expr.map entries span).inFile file =
      .map (entries.map (Prod.map id (Expr.inFile file))) (span.inFile file) := by
  unfold inFile
  rw [mapSpans, mapSpansInEntries_eq]
  rfl

theorem ofParentheses_inFile (items : List Expr) (comma : Bool) (span : Span) :
    ofParentheses (items.map (Expr.inFile file)) comma (span.inFile file) =
      (ofParentheses items comma span).inFile file := by
  match items, comma with
  | [item], false => exact (inFile_withSpan item span).symm
  | [], _ => exact (inFile_tuple [] span).symm
  | [item], true => exact (inFile_tuple [item] span).symm
  | first :: second :: items, comma => exact (inFile_tuple (first :: second :: items) span).symm

/-- The readers of values with the given fuel commute with the change of the number. -/
structure Renumbers (file fuel : Nat) : Prop where
  value (c : Cursor) : parseFuel fuel (c.inFile file) =
    renumber file (movePair file (Expr.inFile file)) (parseFuel fuel c)
  items (close : Mark) (comma : Bool) (c : Cursor) :
    parseItems close fuel comma (c.inFile file) =
      renumber file (movePair file (Prod.map (List.map (Expr.inFile file)) id))
        (parseItems close fuel comma c)
  entries (c : Cursor) : parseEntries fuel (c.inFile file) =
    renumber file (movePair file (List.map (Prod.map id (Expr.inFile file)))) (parseEntries fuel c)

/-- Reads a reference that starts with scope segments. -/
def parseScoped (c : Cursor) : Except SyntaxError (Expr × Cursor) := do
  let (outer, after) ← parseOuterScope c.rest.length c
  let after ← after.expect .atSign
  let (target, after) ← parseReference outer after
  return (.reference target (c.spanTo after), after)

theorem parseScoped_inFile (c : Cursor) :
    parseScoped (c.inFile file) =
      renumber file (movePair file (Expr.inFile file)) (parseScoped c) := by
  unfold parseScoped
  rw [Cursor.rest_inFile, parseOuterScope_inFile]
  refine renumber_bind fun (outer, after) => ?_
  dsimp only [Prod.map]
  rw [Cursor.expect_inFile]
  refine renumber_bind fun after => ?_
  rw [id, parseReference_inFile]
  exact renumber_bind fun _ => rfl

-- The cases are those of the token: a split of the reader's own match would decide, for a token it
-- has no pattern for, that no integer is that token, by trying them all.
theorem parseFuel_succ_inFile {fuel : Nat} (inner : Renumbers file fuel) (c : Cursor) :
    parseFuel (fuel + 1) (c.inFile file) =
      renumber file (movePair file (Expr.inFile file)) (parseFuel (fuel + 1) c) := by
  dsimp only [parseFuel]
  rw [Cursor.peek?_inFile]
  have unexpected : (.error ((c.inFile file).unexpected .value) : Except SyntaxError _) =
      renumber file (movePair file (Expr.inFile file)) (.error (c.unexpected .value)) :=
    congrArg Except.error (Cursor.unexpected_inFile ..)
  cases c.peek? with
  | none => exact unexpected
  | some token =>
    cases token with
    | str text =>
      rw [Cursor.rest_inFile, Cursor.strings_inFile]
      rfl
    | int | float =>
      rw [Cursor.advance_inFile]
      rfl
    | ident name => exact renumber_ite (parseScoped_inFile c) unexpected
    | mark m =>
      cases m with
      | constTrue | constFalse | constNone =>
        rw [Cursor.advance_inFile]
        rfl
      | openBracket =>
        dsimp only
        rw [Cursor.advance_inFile, inner.items]
        refine renumber_bind fun ((items, comma), after) => ?_
        dsimp only [movePair, Prod.map]
        rw [Cursor.expect_inFile]
        refine renumber_bind fun after => ?_
        rw [Cursor.spanTo_inFile, ← inFile_list]
        rfl
      | openParen =>
        dsimp only
        rw [Cursor.advance_inFile, inner.items]
        refine renumber_bind fun ((items, comma), after) => ?_
        dsimp only [movePair, Prod.map]
        rw [Cursor.expect_inFile]
        refine renumber_bind fun after => ?_
        rw [Cursor.spanTo_inFile, ofParentheses_inFile]
        rfl
      | openBrace =>
        dsimp only
        rw [Cursor.advance_inFile, inner.entries]
        refine renumber_bind fun (entries, after) => ?_
        dsimp only [movePair, Prod.map]
        rw [Cursor.expect_inFile]
        refine renumber_bind fun after => ?_
        rw [Cursor.spanTo_inFile, ← inFile_map]
        rfl
      | percent =>
        rw [Cursor.advance_inFile, Cursor.dotted_inFile]
        exact renumber_bind fun _ => rfl
      | atSign =>
        rw [Cursor.advance_inFile, parseReference_inFile]
        exact renumber_bind fun _ => rfl
      | _ => exact renumber_ite (parseScoped_inFile c) unexpected

theorem parseItems_succ_inFile {fuel : Nat} (inner : Renumbers file fuel) (close : Mark)
    (comma : Bool) (c : Cursor) :
    parseItems close (fuel + 1) comma (c.inFile file) =
      renumber file (movePair file (Prod.map (List.map (Expr.inFile file)) id))
        (parseItems close (fuel + 1) comma c) := by
  unfold parseItems
  rw [Cursor.sees_inFile]
  split
  · rfl
  · rw [inner.value]
    refine renumber_bind fun (item, c) => ?_
    simp only [Prod.map, Cursor.sees_inFile, Cursor.advance_inFile, inner.items]
    split
    · exact renumber_bind fun _ => rfl
    · rfl

theorem parseEntries_succ_inFile {fuel : Nat} (inner : Renumbers file fuel) (c : Cursor) :
    parseEntries (fuel + 1) (c.inFile file) =
      renumber file (movePair file (List.map (Prod.map id (Expr.inFile file))))
        (parseEntries (fuel + 1) c) := by
  unfold parseEntries
  rw [Cursor.sees_inFile, Cursor.peek?_inFile]
  split
  · rfl
  · split
    · rw [Cursor.rest_inFile, Cursor.strings_inFile]
      dsimp only [Prod.map]
      rw [Cursor.expect_inFile]
      refine renumber_bind fun c => ?_
      rw [inner.value]
      refine renumber_bind fun (value, c) => ?_
      simp only [Prod.map, Cursor.sees_inFile, Cursor.advance_inFile, inner.entries]
      split
      · exact renumber_bind fun _ => rfl
      · rfl
    · rw [Cursor.unexpected_inFile]
      rfl

theorem renumbers (file fuel : Nat) : Renumbers file fuel := by
  induction fuel with
  | zero =>
    refine ⟨fun c => ?_, fun close comma c => ?_, fun c => ?_⟩
    · dsimp only [parseFuel]
      rw [Cursor.unexpected_inFile]
      rfl
    · unfold parseItems
      rw [Cursor.unexpected_inFile]
      rfl
    · unfold parseEntries
      rw [Cursor.unexpected_inFile]
      rfl
  | succ fuel ih =>
    exact ⟨parseFuel_succ_inFile ih, parseItems_succ_inFile ih, parseEntries_succ_inFile ih⟩

theorem parseAt_inFile (c : Cursor) :
    parseAt (c.inFile file) = renumber file (movePair file (Expr.inFile file)) (parseAt c) :=
  (renumbers file (depthAt c)).value c

end Expr

/-! ## Statements -/

namespace Statement

open Cursor (movePair)

theorem parseAsName_inFile (c : Cursor) :
    parseAsName (c.inFile file) = renumber file (movePair file id) (parseAsName c) := by
  unfold parseAsName
  rw [Cursor.sees_inFile, Cursor.advance_inFile, Cursor.expectName_inFile]
  split
  · exact renumber_bind fun _ => rfl
  · rfl

theorem parseImport_inFile (c : Cursor) :
    parseImport (c.inFile file) =
      renumber file (movePair file (StatementBody.inFile file)) (parseImport c) := by
  unfold parseImport
  rw [Cursor.dotted_inFile]
  refine renumber_bind fun (path, c) => ?_
  dsimp only [Prod.map]
  rw [parseAsName_inFile]
  exact renumber_bind fun _ => rfl

theorem parseFromImport_inFile (c : Cursor) :
    parseFromImport (c.inFile file) =
      renumber file (movePair file (StatementBody.inFile file)) (parseFromImport c) := by
  unfold parseFromImport
  rw [Cursor.dotted_inFile]
  refine renumber_bind fun (parent, c) => ?_
  dsimp only [Prod.map]
  rw [Cursor.expect_inFile]
  refine renumber_bind fun c => ?_
  rw [Cursor.expectName_inFile]
  refine renumber_bind fun (name, c) => ?_
  simp only [Prod.map, id, Cursor.here_inFile, parseAsName_inFile]
  split
  · split <;> rfl
  · exact renumber_bind fun _ => rfl

theorem parseInclude_inFile (c : Cursor) :
    parseInclude (c.inFile file) =
      renumber file (movePair file (StatementBody.inFile file)) (parseInclude c) := by
  unfold parseInclude
  rw [Cursor.peek?_inFile, Cursor.advance_inFile, Cursor.unexpected_inFile]
  split <;> rfl

theorem parseBlockEntries_inFile (fuel : Nat) (seen : List String) (c : Cursor) :
    parseBlockEntries fuel seen (c.inFile file) =
      renumber file (movePair file (List.map (Prod.map id (Expr.inFile file))))
        (parseBlockEntries fuel seen c) := by
  induction fuel generalizing seen c with
  | zero =>
    unfold parseBlockEntries
    rw [Cursor.unexpected_inFile]
    rfl
  | succ fuel ih =>
    unfold parseBlockEntries
    rw [Cursor.sees_inFile, Cursor.expectName_inFile]
    split
    · rfl
    · refine renumber_bind fun (param, after) => ?_
      simp only [Prod.map, id, Cursor.spanTo_inFile, Cursor.expect_inFile]
      split
      · rfl
      · refine renumber_bind fun after => ?_
        rw [Expr.parseAt_inFile]
        refine renumber_bind fun (value, after) => ?_
        dsimp only [movePair, Prod.map]
        rw [Cursor.skip_inFile, ih]
        exact renumber_bind fun _ => rfl

theorem parseBlock_inFile (c : Cursor) :
    parseBlock (c.inFile file) =
      renumber file (movePair file (BindingBody.inFile file)) (parseBlock c) := by
  unfold parseBlock
  rw [Cursor.expect_inFile]
  refine renumber_bind fun inner => ?_
  rw [Cursor.rest_inFile, parseBlockEntries_inFile]
  refine renumber_bind fun (entries, after) => ?_
  dsimp only [Prod.map]
  rw [Cursor.expect_inFile]
  exact renumber_bind fun _ => rfl

theorem assign_inFile (scope : Scope) (path : DottedName) (target : Span) (value : Expr) :
    assign scope path (target.inFile file) (value.inFile file) =
      renumber file (StatementBody.inFile file) (assign scope path target value) := by
  unfold assign
  split
  · rfl
  · split <;> rfl

theorem parseAssignment_inFile (c : Cursor) :
    parseAssignment (c.inFile file) =
      renumber file (movePair file (StatementBody.inFile file)) (parseAssignment c) := by
  unfold parseAssignment
  rw [Cursor.scopedName_inFile .bindingTarget Cursor.here_inFile]
  refine renumber_bind fun ((scope, path), after) => ?_
  simp only [Prod.map, id, Cursor.sees_inFile, Cursor.advance_inFile, parseBlock_inFile,
    Cursor.expect_inFile]
  split
  · exact renumber_bind fun _ => rfl
  · refine renumber_bind fun valueStart => ?_
    rw [Expr.parseAt_inFile]
    refine renumber_bind fun (value, last) => ?_
    dsimp only [movePair, Prod.map]
    rw [Cursor.spanTo_inFile, assign_inFile]
    exact renumber_bind fun _ => rfl

theorem parseBody_inFile (c : Cursor) :
    parseBody (c.inFile file) =
      renumber file (movePair file (StatementBody.inFile file)) (parseBody c) := by
  unfold parseBody
  rw [Cursor.peek?_inFile, Cursor.advance_inFile]
  split
  · exact parseImport_inFile _
  · exact parseFromImport_inFile _
  · exact parseInclude_inFile _
  · rw [Cursor.unexpected_inFile]
    split
    · exact parseAssignment_inFile c
    · rfl
  · rw [Cursor.unexpected_inFile]
    rfl

theorem parseAt_inFile (c : Cursor) :
    parseAt (c.inFile file) =
      renumber file (movePair file (Statement.inFile file)) (parseAt c) := by
  unfold parseAt
  rw [parseBody_inFile]
  exact renumber_bind fun _ => rfl

theorem parseAll_inFile (fuel : Nat) (c : Cursor) :
    parseAll fuel (c.inFile file) =
      renumber file (List.map (Statement.inFile file)) (parseAll fuel c) := by
  induction fuel generalizing c with
  | zero => rfl
  | succ fuel ih =>
    unfold parseAll
    rw [Cursor.atEnd_inFile, parseAt_inFile]
    split
    · rfl
    · refine renumber_bind fun (statement, c) => ?_
      dsimp only [Prod.map]
      rw [ih]
      exact renumber_bind fun _ => rfl

/-- The statements of a source, under whatever number it is read. -/
theorem parseSource_inFile (file other : Nat) (text : String) :
    parseSource file text =
      renumber file (List.map (Statement.inFile file)) (parseSource other text) := by
  unfold parseSource
  split
  · rfl
  · exact parseAll_inFile _ (Cursor.start other _)

/-- A single assignment, under whatever number it is read. -/
theorem parseAssignmentText_inFile (file other : Nat) (text : String) :
    parseAssignmentText file text =
      renumber file (Statement.inFile file) (parseAssignmentText other text) := by
  unfold parseAssignmentText
  split
  · rfl
  · rename_i lexemes _
    have start : Cursor.start file lexemes = (Cursor.start other lexemes).inFile file := rfl
    rw [assignmentOfLexemes, assignmentOfLexemes, start, parseAt_inFile]
    refine renumber_bind fun (statement, c) => ?_
    have same : (statement.inFile file).isAssignment = statement.isAssignment := by
      obtain ⟨body, _⟩ := statement
      cases body <;> rfl
    simp only [Prod.map, Cursor.atEnd_inFile, same, Cursor.unexpected_inFile]
    split
    · split <;> rfl
    · rfl

end Statement

end ConfigBinding
