import ScriptedPng.Block.Chromaticities
import ScriptedPng.Block.Gamma
import ScriptedPng.Block.Header
import ScriptedPng.Block.Intent
import ScriptedPng.Block.Palette
import ScriptedPng.Proofs.Block.Change
import ScriptedPng.Proofs.Lexer.Lines

/-!
# The places of diagnostics

A diagnostic about a token belongs to the line where the token starts, and the token is always the
last one read. A diagnostic about the characters of a data segment belongs to the line of the last
character read. All the others belong to some line of the source.

## Main definitions

* `Diagnostic.Placed` — a cause is about what stands on a line.
* `Diagnostic.Belongs` — a diagnostic is placed where reading has stopped.
* `Block.Locates` — the failures of an action belong to the places reached.

## Main statements

* `Lexer.belongs_of_marks`, `Lexer.belongs_of_spoilt` — the diagnostics of the lexer do.
* `Block.locates_header`, `Block.locates_palette`, … — and so do those of bodies.
-/

namespace ScriptedPng

open Diagnostic Lexer Text

namespace Lexer

/-- The lexer is at a place in the source. -/
def OnSource (chars : List Char) (lexer : Lexer) : Prop :=
  ∃ done rest, chars = done ++ rest ∧ At done rest lexer

/-- The lexer is at a place in the source, and has just read the token. -/
def OnToken (chars : List Char) (token : Token) (lexer : Lexer) : Prop :=
  ∃ before done rest, chars = done ++ rest ∧ At done rest lexer ∧
    JustRead before done rest token ∧ lexer.token = some token

variable {chars done rest : List Char} {lexer : Lexer} {token : Token}

theorem OnToken.onSource (h : OnToken chars token lexer) : OnSource chars lexer := by
  obtain ⟨_, done, rest, hchars, hat, -, -⟩ := h
  exact ⟨done, rest, hchars, hat⟩

theorem Onward.onSource (h : Onward done rest lexer) : OnSource (done ++ rest) lexer := by
  obtain ⟨more, rest', rfl, hat⟩ := h
  exact ⟨done ++ more, rest', by simp, hat⟩

theorem OnSource.line_le (h : OnSource chars lexer) :
    1 ≤ lexer.line ∧ lexer.line ≤ lineAfter chars := by
  obtain ⟨done, rest, rfl, hat⟩ := h
  rw [hat.line]
  exact ⟨one_le_lineAfter done, lineAfter_le⟩

theorem OnToken.line_le (h : OnToken chars token lexer) :
    1 ≤ token.line ∧ token.line ≤ lineAfter chars := by
  obtain ⟨before, done, rest, rfl, -, ⟨hline, lexeme, gone, rfl, -⟩, -⟩ := h
  rw [hline, List.append_assoc]
  exact ⟨one_le_lineAfter before, lineAfter_le⟩

end Lexer

namespace Diagnostic

/-- The token is one that the cause can be about. -/
def Cause.Blames (token : Token) : Cause → Prop
  | unexpectedToken text | badToken text _ | badConstant _ text | unknownBlock text =>
    token.text = text
  | badPaletteEntry => ¬ token.Is "("
  | missingDelimiter => ¬ token.Is "\x7b"
  | _ => True

/-- The categories of the causes that are about a token. -/
def tokenCategories : List Category :=
  [.unexpectedToken, .missingDelimiter, .unknownBlock]

/-- The cause is about what stands on the line: about the last token read, or the last character
read of a data segment. If reading has failed, the line is the last one of the source. -/
structure Placed (chars : List Char) (cause : Cause) (line : Line) (after : Lexer) : Prop where
  number : ∃ number, line = .at number ∧ 1 ≤ number ∧ number ≤ lineAfter chars
  token : cause.category ∈ tokenCategories →
    ∃ token, OnToken chars token after ∧ cause.Blames token ∧ line = .at token.line
  character : cause.category = .malformedData →
    ∃ before c rest, chars = before ++ c :: rest ∧ At (before ++ [c]) rest after ∧
      line = .at (lineAfter before) ∧ (cause = .oddHexDigits ∧ c = '\x7d' ∨
        cause = .badDataCharacter ∧ c ≠ '\x7d' ∧ isBlank c = false)
  readFailed : ∀ reason, cause = .readFailed reason → line = .at (lineAfter chars)

/-- The diagnostic is placed on its line, or else on the line reached. -/
def Belongs (chars : List Char) (diagnostic : Diagnostic) (after : Lexer) : Prop :=
  Placed chars diagnostic.cause (diagnostic.line.getD (.at after.line)) after

/-- The cause is neither about a token nor about a character, and reading has not failed. -/
def Cause.Blameless (cause : Cause) : Prop :=
  cause.category ∉ .lexical :: .malformedData :: tokenCategories

instance (cause : Cause) : Decidable cause.Blameless :=
  inferInstanceAs (Decidable (_ ∉ _))

theorem Cause.blameless_of {cause : Cause} (category : Category) (h : cause.category = category)
    (hcategory : category ∉ .lexical :: .malformedData :: tokenCategories) : cause.Blameless := by
  rwa [← h] at hcategory

end Diagnostic

namespace Lexer

variable {chars done rest : List Char} {lexer after : Lexer} {diagnostic : Diagnostic}
  {cause : Cause} {token : Token}

theorem belongs_of_marks (h : Marks (lineAfter done) (lineAfter (done ++ rest)) diagnostic after) :
    Belongs (done ++ rest) diagnostic after := by
  have hlexical : diagnostic.cause.category = .lexical := h.lexical
  obtain ⟨number, hline, hfirst, hlast⟩ := h.line
  refine ⟨⟨number, hline, Nat.le_trans (one_le_lineAfter done) hfirst, hlast⟩, ?_, ?_, ?_⟩
  · simp [hlexical, tokenCategories]
  · simp [hlexical]
  · intro reason hcause
    obtain ⟨hnone, hreached⟩ := h.readFailed reason hcause
    rw [hnone, ← hreached]
    rfl

theorem belongs_of_blameless (h : cause.Blameless) {number : Nat} (hone : 1 ≤ number)
    (hlast : number ≤ lineAfter chars) {line : Option Line}
    (hline : line.getD (.at after.line) = .at number) : Belongs chars ⟨cause, line⟩ after := by
  refine ⟨⟨number, hline, hone, hlast⟩, fun hmem => ?_, fun hmem => ?_, ?_⟩
  · exact (h (by simp [hmem])).elim
  · exact (h (by simp [hmem])).elim
  · rintro reason rfl
    exact (h List.mem_cons_self).elim

/-- A cause without a line belongs to the line reached. -/
theorem OnSource.belongs (h : OnSource chars after) (hcause : cause.Blameless) :
    Belongs chars ⟨cause, none⟩ after :=
  belongs_of_blameless hcause h.line_le.1 h.line_le.2 rfl

/-- A cause on the line of the last token read. -/
theorem OnToken.belongs (h : OnToken chars token after) (hblames : cause.Blames token)
    (hcause : cause.Blameless ∨ cause.category ∈ tokenCategories) :
    Belongs chars ⟨cause, some (.at token.line)⟩ after := by
  obtain hcause | hcause := hcause
  · exact belongs_of_blameless hcause h.line_le.1 h.line_le.2 rfl
  · refine ⟨⟨token.line, rfl, h.line_le⟩, fun _ => ⟨token, h, hblames, rfl⟩, fun hdata => ?_, ?_⟩
    · simp [hdata, tokenCategories] at hcause
    · rintro reason rfl
      simp [Cause.category, tokenCategories] at hcause

/-- What spoils a data segment is the last character read, and no newline. -/
theorem belongs_of_character {before : List Char} {c : Char} (h : At (before ++ [c]) rest after)
    (hcause : cause = .oddHexDigits ∧ c = '\x7d' ∨
      cause = .badDataCharacter ∧ c ≠ '\x7d' ∧ isBlank c = false) :
    Belongs (before ++ c :: rest) ⟨cause, none⟩ after := by
  have hnewline : c ≠ '\n' := by
    rintro rfl
    obtain ⟨-, hclose⟩ | ⟨-, -, hblank⟩ := hcause
    · cases hclose
    · cases hblank
  have hline : after.line = lineAfter before := by simp [h.line, lineAfter_append, hnewline]
  have hcategory : cause.category = .malformedData := by
    obtain ⟨rfl, -⟩ | ⟨rfl, -⟩ := hcause <;> rfl
  refine ⟨⟨after.line, rfl, ?_⟩, ?_, fun _ => ?_, ?_⟩
  · rw [hline]
    exact ⟨one_le_lineAfter before, lineAfter_le⟩
  · simp [hcategory, tokenCategories]
  · exact ⟨before, c, rest, rfl, h, congrArg Line.at hline, hcause⟩
  · rintro reason rfl
    cases hcategory

theorem belongs_of_spoilt (h : Spoilt done rest diagnostic after) :
    Belongs (done ++ rest) diagnostic after := by
  cases h with
  | readFailed h =>
    refine ⟨⟨after.line, rfl, ?_⟩, by simp [Cause.category, tokenCategories],
      by simp [Cause.category], fun _ _ => congrArg Line.at h⟩
    rw [h]
    exact ⟨one_le_lineAfter _, Nat.le_refl _⟩
  | ended => exact belongs_of_blameless (by decide) (one_le_lineAfter _) (Nat.le_refl _) rfl
  | odd more rest' hrest h =>
    rw [hrest, ← List.append_assoc]
    exact belongs_of_character (by simpa using h) (.inl ⟨rfl, rfl⟩)
  | character more rest' hrest hc h =>
    rw [hrest, ← List.append_assoc]
    exact belongs_of_character (by simpa using h) (.inr ⟨rfl, hc⟩)

/-! ## Actions of the lexer -/

/-- What is known when the end has been found, or a token. -/
def Finds (chars : List Char) (found : Option Token) (after : Lexer) : Prop :=
  OnSource chars after ∧ ∀ token ∈ found, OnToken chars token after

theorem outcome_next_onSource (h : OnSource chars lexer) :
    Outcome (Finds chars) (Belongs chars) (next lexer) := by
  obtain ⟨done, rest, rfl, hat⟩ := h
  refine (outcome_next_at hat).mono ?_ fun _ _ => belongs_of_marks
  intro found after hadvance
  refine ⟨hadvance.onward.onSource, ?_⟩
  rintro token ⟨⟩
  obtain _ | ⟨hrest, hgap, hread, htoken, hafter⟩ := hadvance
  exact ⟨_, _, _, by simp [hrest], hafter, hread, htoken⟩

theorem outcome_unexpectedEnd {α : Type} {post : α → Lexer → Prop} (h : OnSource chars lexer) :
    Outcome post (Belongs chars) (fail .unexpectedEnd lexer) :=
  belongs_of_blameless (by decide) h.line_le.1 h.line_le.2 rfl

theorem outcome_inner_onSource (h : OnSource chars lexer) :
    Outcome (Finds chars) (Belongs chars) (inner lexer) := by
  refine .bind (outcome_next_onSource h) ?_
  intro found after hfound
  cases found with
  | none => exact outcome_unexpectedEnd hfound.1
  | some token =>
    refine .pure ⟨hfound.1, ?_⟩
    split
    · rintro _ ⟨⟩
    · exact hfound.2

theorem outcome_require_onSource (h : OnSource chars lexer) (text : String) :
    Outcome (fun _ => OnSource chars) (Belongs chars) (require text lexer) := by
  refine .bind (outcome_next_onSource h) ?_
  intro found after hfound
  cases found with
  | none => exact outcome_unexpectedEnd hfound.1
  | some token =>
    have htoken := hfound.2 token rfl
    refine .ite (fun _ => .pure hfound.1) fun _ => .throw (htoken.belongs rfl (.inr ?_))
    exact List.mem_cons_self

theorem outcome_collect_onSource (h : OnSource chars lexer) (alphabet : Segment.Alphabet) :
    Outcome (fun _ => OnSource chars) (Belongs chars) (collect alphabet lexer) := by
  obtain ⟨done, rest, rfl, hat⟩ := h
  exact (outcome_collect_at hat alphabet).mono (fun _ _ => Onward.onSource)
    fun _ _ => belongs_of_spoilt

end Lexer

/-! ## Actions of bodies -/

namespace Block

variable {chars : List Char} {α : Type} {before : Lexer → Prop} {post : α → Lexer → Prop}
  {token : Token} {cause : Cause}

/-- The action leads from one condition on the lexer to another one, and its failures
belong to the places reached. -/
abbrev Locates (chars : List Char) (before : Lexer → Prop) (post : α → Lexer → Prop)
    (action : BodyM α) : Prop :=
  Leads (fun body => before body.lexer) (fun value after => post value after.lexer)
    (fun diagnostic after => Belongs chars diagnostic after.lexer) action

/-- The action goes on from a place in the source to another one, and its failures belong there. -/
abbrev StaysOn (chars : List Char) (action : BodyM α) : Prop :=
  Locates chars (OnSource chars) (fun _ => OnSource chars) action

/-- What needs no more than a place may follow a token. -/
theorem locates_of_onSource {action : BodyM α} (h : Locates chars (OnSource chars) post action) :
    Locates chars (OnToken chars token) post action :=
  h.weaken fun _ => OnToken.onSource

theorem locates_read {action : LexerM α}
    (h : ∀ lexer, before lexer → Outcome post (Belongs chars) (action lexer)) :
    Locates chars before post (read action) :=
  fun body hbody => (outcome_read (h body.lexer hbody)).mono (fun _ _ h => h.2) fun _ _ h => h.2

theorem locates_next : Locates chars (OnSource chars) (Finds chars) (read next) :=
  locates_read fun _ => outcome_next_onSource

theorem locates_require (text : String) :
    StaysOn chars (read (require text)) :=
  locates_read fun _ h => outcome_require_onSource h text

theorem locates_change (f : Image → Image) :
    Locates chars before (fun _ => before) (change f) :=
  fun _ hbody => hbody

theorem locates_image : Locates chars before (fun _ => before) image :=
  fun _ hbody => hbody

theorem locates_fail (h : cause.Blameless) : Locates chars (OnSource chars) post (fail cause) :=
  fun _ hbody => hbody.belongs h

theorem locates_failAt (hblames : cause.Blames token)
    (hcause : cause.Blameless ∨ cause.category ∈ tokenCategories) :
    Locates chars (OnToken chars token) post (failAt token cause) :=
  fun _ hbody => hbody.belongs hblames hcause

/-- Tokens are judged as constants: a diagnostic is about the token, if there is one. -/
def Judges (value : Option Token → Except Diagnostic α) : Prop :=
  ∀ found diagnostic, value found = .error diagnostic →
    (found = none ∧ diagnostic.line = none ∧ diagnostic.cause.Blameless) ∨
    ∃ token, found = some token ∧ diagnostic.line = some (.at token.line) ∧
      diagnostic.cause.Blames token ∧
      (diagnostic.cause.Blameless ∨ diagnostic.cause.category ∈ tokenCategories)

theorem judges_of_constantFault {value : Option Token → Except Diagnostic α} {kind : Constant}
    (h : ∀ found diagnostic, value found = .error diagnostic →
      ConstantFault kind found diagnostic) : Judges value := by
  intro found diagnostic hvalue
  cases h found diagnostic hvalue with
  | ended => exact .inl ⟨rfl, rfl, Cause.blameless_of .unexpectedEnd rfl (by decide)⟩
  | malformed token => exact .inr ⟨token, rfl, rfl, rfl, .inr List.mem_cons_self⟩
  | outOfRange token =>
    exact .inr ⟨token, rfl, rfl, trivial, .inl (Cause.blameless_of .range rfl (by decide))⟩

theorem judges_integer (kind : Constant) (limit : Nat) : Judges (integer kind limit) :=
  judges_of_constantFault fun _ _ => constantFault_of_integer

theorem judges_double : Judges double :=
  judges_of_constantFault fun _ _ => constantFault_of_double

theorem locates_lift {value : Option Token → Except Diagnostic α} (h : Judges value)
    (found : Option Token) :
    Locates chars (Finds chars found) (fun _ => Finds chars found) (lift (value found)) := by
  intro body hbody
  cases hvalue : value found with
  | ok value => exact hbody
  | error diagnostic =>
    obtain ⟨cause, line⟩ := diagnostic
    obtain ⟨rfl, rfl, hcause⟩ | ⟨token, rfl, rfl, hblames, hcause⟩ := h found _ hvalue
    · exact hbody.1.belongs hcause
    · exact (hbody.2 token rfl).belongs hblames hcause

theorem locates_readConstant {value : Option Token → Except Diagnostic α} (h : Judges value) :
    StaysOn chars (readConstant value) :=
  .bind locates_next fun found body hbody =>
    (locates_lift h found body hbody).mono_post fun _ _ hafter => hafter.1

theorem locates_foldItems {handle : α → Token → BodyM α}
    {hforward : ∀ result token, Forward (handle result token)}
    (h : ∀ result token, Locates chars (OnToken chars token) (fun _ => OnSource chars)
      (handle result token)) (result : α) :
    StaysOn chars (foldItems handle hforward result) := by
  intro body hbody
  refine Outcome.foldEach (fun _ body => OnSource chars body.lexer)
    (fun _ token body => OnToken chars token body.lexer) hbody ?_ fun result token => h result token
  intro result body hbody
  refine (outcome_read (outcome_inner_onSource hbody)).mono ?_ fun _ _ h => h.2
  rintro (_ | token) after ⟨-, hsource, htoken⟩
  · exact hsource
  · exact htoken token rfl

theorem locates_forEachItem {handle : Token → BodyM Unit}
    {hforward : ∀ token, Forward (handle token)}
    (h : ∀ token, Locates chars (OnToken chars token) (fun _ => OnSource chars) (handle token)) :
    StaysOn chars (forEachItem handle hforward) :=
  locates_foldItems (fun _ => h) ()

theorem locates_close (keyword : String) :
    StaysOn chars (close keyword) := by
  refine .bind locates_next ?_
  intro found
  cases found with
  | none => exact (locates_fail (by decide)).weaken fun _ h => h.1
  | some token =>
    refine .ite (fun _ => .pure fun _ h => h.1) fun _ => ?_
    exact (locates_failAt (by rfl) (.inr List.mem_cons_self)).weaken fun _ h => h.2 token rfl

/-! ## Bodies -/

theorem locates_gamma : StaysOn chars gamma :=
  .bind (locates_readConstant judges_double) fun _ => .bind (locates_change _) fun _ =>
    .bind (locates_close _) fun _ => locates_change _

theorem locates_readIntent : StaysOn chars readIntent := by
  refine .bind locates_next fun found => .bind (locates_lift (judges_integer _ _) found) ?_
  intro intent
  refine .ite (fun _ => .pure fun _ h => h.1) fun _ body hbody => ?_
  have hcause : (Cause.intentOutOfRange intent).Blameless :=
    Cause.blameless_of .range rfl (by decide)
  cases found with
  | none => exact hbody.1.belongs hcause
  | some token => exact (hbody.2 token rfl).belongs trivial (.inl hcause)

theorem locates_intent : StaysOn chars intent :=
  .bind locates_readIntent fun _ => .bind (locates_close _) fun _ => locates_change _

theorem locates_readPoint (given : List Primary) (token : Token) :
    Locates chars (OnToken chars token) (fun _ => OnSource chars)
      (Chromaticities.readPoint given token) := by
  have hcoordinates : StaysOn chars Chromaticities.readCoordinates :=
    .bind (locates_require _) fun _ => .bind (locates_readConstant judges_double) fun _ =>
      .bind (locates_require _) fun _ => .bind (locates_readConstant judges_double) fun _ =>
      .bind (locates_require _) fun _ => .pure fun _ h => h
  unfold Chromaticities.readPoint
  split
  · exact locates_failAt trivial (.inr List.mem_cons_self)
  · exact locates_of_onSource (.bind hcoordinates fun _ => .bind (locates_change _) fun _ =>
      .pure fun _ h => h)

theorem locates_chromaticities :
    StaysOn chars chromaticities :=
  .bind (locates_foldItems locates_readPoint _) fun _ =>
    .ite (fun _ => locates_change _) fun _ => locates_fail (by decide)

theorem locates_setting (token : Token) :
    Locates chars (OnToken chars token) (fun _ => OnSource chars) (Header.setting token) := by
  have hinteger (kind : Constant) (limit : Nat) (f : Nat → Header.Setting) :
      Locates chars (OnToken chars token) (fun _ => OnSource chars)
        (f <$> readConstant (integer kind limit)) :=
    locates_of_onSource (.map (locates_readConstant (judges_integer kind limit)))
  have hpure (setting : Header.Setting) :
      Locates chars (OnToken chars token) (fun _ => OnSource chars) (pure setting) :=
    .pure fun _ => OnToken.onSource
  exact .ite (fun _ => hinteger _ _ _) fun _ => .ite (fun _ => hinteger _ _ _) fun _ =>
    .ite (fun _ => hinteger _ _ _) fun _ => .ite (fun _ => hpure _) fun _ =>
    .ite (fun _ => hpure _) fun _ => .ite (fun _ => hpure _) fun _ =>
    .ite (fun _ => hpure _) fun _ => .ite (fun _ => hpure _) fun _ =>
    locates_failAt (by rfl) (.inr (by exact List.mem_cons_self))

theorem locates_header : StaysOn chars header := by
  have hsetting (token : Token) : Locates chars (OnToken chars token) (fun _ => OnSource chars)
      (Header.readSetting token) :=
    .bind (locates_setting token) fun _ => locates_change _
  have hsize : StaysOn chars Header.checkSize :=
    .bind locates_image fun _ => .ite (fun _ => locates_fail (by decide)) fun _ =>
      .ite (fun _ => locates_fail (by decide)) fun _ => .pure fun _ h => h
  exact .bind (locates_change _) fun _ => .bind (locates_forEachItem hsetting) fun _ => hsize

theorem locates_readEntry (token : Token) :
    Locates chars (OnToken chars token) (fun _ => OnSource chars) (Palette.readEntry token) := by
  have hbyte : StaysOn chars (readConstant byte) :=
    locates_readConstant (judges_integer _ _)
  have hcolors : StaysOn chars Palette.readColors :=
    .bind hbyte fun _ => .bind (locates_require _) fun _ => .bind hbyte fun _ =>
      .bind (locates_require _) fun _ => .bind hbyte fun _ => .bind (locates_require _) fun _ =>
      .pure fun _ h => h
  refine .ite (fun _ => .bind locates_image fun _ => ?_) fun hparenthesis => ?_
  · exact .ite (fun _ => locates_failAt trivial (.inl (by decide))) fun _ =>
      locates_of_onSource (.bind hcolors fun _ => locates_change _)
  · exact locates_failAt hparenthesis (.inr List.mem_cons_self)

theorem locates_palette : StaysOn chars palette :=
  .bind (locates_forEachItem locates_readEntry) fun _ => locates_change _

end Block

end ScriptedPng
