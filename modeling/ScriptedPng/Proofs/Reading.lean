import ScriptedPng.Block.Chromaticities
import ScriptedPng.Block.Gamma
import ScriptedPng.Block.Header
import ScriptedPng.Block.Intent
import ScriptedPng.Block.Palette
import ScriptedPng.Proofs.OneLine
import ScriptedPng.Proofs.Outcome

/-!
# What goes wrong in reading

A token is on one line: no word has a newline, and a string is broken off at the first one. So the
diagnostics of reading are on one line as well, unless the system gives a reason that is not. None
of them is about the image to be written.

## Main definitions

* `Lexer.Clean` — the lexer holds a token on one line.
* `Diagnostic.OfReading` — a diagnostic that reading may give.
* `Block.Reads` — an action of a body that gives only such diagnostics.

## Main statements

* `Lexer.ensures_next` — tokens are on one line.
* `Block.reads_header`, `Block.reads_palette`, … — bodies give diagnostics of reading only.
-/

namespace ScriptedPng

open Text

/-- The diagnostic is not about the image to be written, and the texts that its message takes over
are on one line, unless reading has failed for the reason for which the source is faulty. -/
structure Diagnostic.OfReading (fault : Option String) (diagnostic : Diagnostic) : Prop where
  isBackend_eq : diagnostic.isBackend = false
  texts : ∀ text ∈ diagnostic.cause.texts,
    OneLine text ∨ diagnostic.cause = .readFailed text ∧ fault = some text

namespace Token

/-- The text of the token is on one line. -/
def Plain (token : Token) : Prop := OneLine token.text

end Token

/-! ## Tokens -/

namespace Lexer

open Diagnostic

/-- The last token is on one line, and the source is faulty for the given reason, if it is. -/
structure Clean (fault : Option String) (lexer : Lexer) : Prop where
  token : ∀ token ∈ lexer.token, token.Plain
  fault : lexer.source.fault = fault

variable {fault : Option String} {lexer : Lexer}

/-- The lexer may go on in the source and count lines. -/
theorem Clean.skipTo (h : lexer.Clean fault) (rest : List Reading) (line : Nat) :
    Clean fault { lexer.skipTo rest with line } :=
  ⟨h.token, h.fault⟩

/-- An action that gives diagnostics of reading only, and something of which more is known. -/
abbrev Reads {α : Type} (fault : Option String) (post : α → Prop) (action : LexerM α) : Prop :=
  Ensures (Clean fault) post (OfReading fault) action

theorem reads_fail {α : Type} {post : α → Prop} {cause : Cause}
    (hcategory : decide (cause.category = .backend) = false) (htexts : cause.texts = []) :
    Reads fault post (fail cause) :=
  fun _ h => ⟨⟨hcategory, by simp [htexts]⟩, h⟩

theorem reads_finish {α : Type} {post : α → Prop} {onEnd : LexerM α} (h : Reads fault post onEnd) :
    Reads fault post (finish onEnd) := by
  intro lexer hlexer
  simp only [finish]
  cases hfault : lexer.source.fault with
  | none => exact h lexer hlexer
  | some reason =>
    refine ⟨⟨rfl, fun text hmem => .inr ?_⟩, hlexer⟩
    obtain rfl := List.mem_singleton.1 hmem
    exact ⟨rfl, hlexer.fault.symm.trans hfault⟩

/-- What is known of a token that has been found, if any. -/
def Found (found : Option Token) : Prop := ∀ token ∈ found, token.Plain

theorem reads_deliver {text : String} {quoted : Bool} (h : OneLine text) (line : Nat) :
    Reads fault Found (deliver text line quoted) := by
  intro lexer hlexer
  have hfound : Found (some ⟨text, line, quoted⟩) := by
    rintro _ ⟨⟩
    exact h
  exact ⟨hfound, hfound, hlexer.fault⟩

theorem of_mem_span {test : Char → Bool} {readings : List Reading} {c : Char}
    (h : c ∈ (span test readings).1) : test c = true := by
  fun_induction span test readings with
  | case1 first rest htest chars after hspan ih =>
    simp only [hspan] at ih
    rcases List.mem_cons.1 h with rfl | h
    · exact htest
    · exact ih h
  | case2 => cases h
  | case3 => cases h

theorem oneLine_ofList {chars : List Char} (h : '\n' ∉ chars) : OneLine (String.ofList chars) := by
  simpa [OneLine] using h

/-- The gap between tokens ends before a character that is not blank. -/
theorem not_isBlank_of_skipGap {inComment : Bool} {line : Nat} {readings rest : List Reading}
    {c : Char} (h : (skipGap inComment line readings).2 = some c :: rest) :
    isBlank c = false := by
  fun_induction skipGap inComment line readings <;> grind

theorem reads_readWord {first : Char} (h : isBlank first = false) (rest : List Reading) :
    Reads fault Found (readWord first rest) := by
  intro lexer hlexer
  have hword : OneLine (String.ofList (first :: (span Token.isWordChar rest).1)) := by
    apply oneLine_ofList
    intro hmem
    rcases List.mem_cons.1 hmem with rfl | hmem
    · simp [isBlank_newline] at h
    · have := of_mem_span hmem
      simp [Token.isWordChar, isBlank_newline] at this
  have hdeliver : Reads fault Found (deliver _ lexer.line false) := reads_deliver hword _
  simp only [readWord]
  split
  · exact reads_fail rfl rfl _ (hlexer.skipTo _ _)
  · split
    · exact reads_finish hdeliver _ (hlexer.skipTo _ _)
    · exact hdeliver _ (hlexer.skipTo _ _)
    · split
      · exact hdeliver _ (hlexer.skipTo _ _)
      · split
        · exact hdeliver _ (hlexer.skipTo _ _)
        · exact hdeliver _ ⟨hlexer.token, hlexer.fault⟩

theorem reads_readString (quote : Char) (rest : List Reading) :
    Reads fault Found (readString quote rest) := by
  intro lexer hlexer
  have hstring : OneLine (String.ofList (span (fun c => c ≠ quote && c ≠ '\n') rest).1) := by
    apply oneLine_ofList
    intro hmem
    have := of_mem_span hmem
    simp at this
  simp only [readString]
  split
  · exact reads_fail rfl rfl _ (hlexer.skipTo _ _)
  · split
    · exact reads_finish (reads_fail rfl rfl) _ (hlexer.skipTo _ _)
    · exact reads_fail rfl rfl _ (hlexer.skipTo _ _)
    · split
      · exact reads_deliver hstring _ _ (hlexer.skipTo _ _)
      · exact reads_fail rfl rfl _ (hlexer.skipTo _ _)

theorem reads_scan : Reads fault Found scan := by
  intro lexer hlexer
  simp only [scan]
  split
  · exact reads_finish (.pure (by rintro _ ⟨⟩)) _ (hlexer.skipTo _ _)
  · exact ⟨by rintro _ ⟨⟩, hlexer.skipTo _ _⟩
  · rename_i c rest heq
    have hblank := not_isBlank_of_skipGap heq
    split
    · exact reads_readString c rest _ ⟨hlexer.token, hlexer.fault⟩
    · split
      · have hline : '\n' ∉ [c] := fun hmem => by
          rw [← List.mem_singleton.1 hmem, isBlank_newline] at hblank
          cases hblank
        exact reads_deliver (oneLine_ofList hline) _ _ (hlexer.skipTo _ _)
      · exact reads_readWord hblank rest _ ⟨hlexer.token, hlexer.fault⟩

/-- Tokens are on one line. -/
theorem reads_next : Reads fault Found next := by
  intro lexer hlexer
  simp only [next]
  split
  · exact ⟨hlexer.token, hlexer.token, hlexer.fault⟩
  · exact reads_scan lexer hlexer

theorem reads_inner : Reads fault Found inner := by
  refine .bind reads_next ?_
  intro found hfound
  cases found with
  | none => exact reads_fail rfl rfl
  | some token =>
    refine .pure ?_
    split
    · rintro _ ⟨⟩
    · exact hfound

theorem reads_require (text : String) : Reads fault (fun _ => True) (require text) := by
  refine .bind reads_next ?_
  intro found hfound
  cases found with
  | none => exact reads_fail rfl rfl
  | some token =>
    refine .ite (fun _ => .pure trivial) fun _ => .throw ⟨rfl, fun text hmem => .inl ?_⟩
    rw [List.mem_singleton.1 hmem]
    exact hfound token rfl

theorem reads_collectInto (collector : Segment.Collector) (readings : List Reading) :
    Reads fault (fun _ => True) (collectInto collector readings) := by
  induction readings generalizing collector with
  | nil =>
    intro lexer hlexer
    exact reads_finish (reads_fail rfl rfl) _ (hlexer.skipTo _ _)
  | cons reading rest ih =>
    intro lexer hlexer
    cases reading with
    | none => exact reads_fail rfl rfl _ (hlexer.skipTo _ _)
    | some c =>
      have hafter : (if c = '\n' then
          { lexer.skipTo rest with line := (lexer.skipTo rest).line + 1 }
          else lexer.skipTo rest).Clean fault := by
        split
        · exact hlexer.skipTo _ _
        · exact hlexer.skipTo _ _
      simp only [collectInto]
      split
      · cases hfinish : collector.finish with
        | ok octets => exact ⟨trivial, hafter⟩
        | error cause =>
          obtain rfl := Segment.Collector.cause_of_finish hfinish
          exact ⟨⟨rfl, by simp [Cause.texts]⟩, hafter⟩
      · cases hfeed : collector.feed c with
        | ok collector => exact ih collector _ hafter
        | error cause =>
          obtain ⟨rfl, -⟩ := Segment.Collector.cause_of_feed hfeed
          exact ⟨⟨rfl, by simp [Cause.texts]⟩, hafter⟩

theorem reads_collect (alphabet : Segment.Alphabet) :
    Reads fault (fun _ => True) (collect alphabet) :=
  fun lexer hlexer => reads_collectInto _ _ lexer hlexer

end Lexer

/-! ## Bodies -/

namespace Block

open Diagnostic
open Lexer (Found)

variable {fault : Option String}

/-- An action of a body that gives diagnostics of reading only, and something of which more is
known. -/
abbrev Reads {α : Type} (fault : Option String) (post : α → Prop) (action : BodyM α) : Prop :=
  Ensures (fun body => body.lexer.Clean fault) post (OfReading fault) action

section

variable {α : Type} {post : α → Prop}

theorem reads_read {action : LexerM α} (h : Lexer.Reads fault post action) :
    Reads fault post (read action) := by
  intro body hbody
  have hresult := h body.lexer hbody
  simp only [read]
  cases haction : action body.lexer with
  | ok value lexer => rwa [haction] at hresult
  | error diagnostic lexer => rwa [haction] at hresult

theorem reads_change (f : Image → Image) : Reads fault (fun _ => True) (change f) :=
  fun _ h => ⟨trivial, h⟩

theorem reads_image : Reads fault (fun _ => True) image := fun _ h => ⟨trivial, h⟩

theorem reads_fail {cause : Cause} (hcategory : decide (cause.category = .backend) = false)
    (htexts : cause.texts = []) : Reads fault post (fail cause) :=
  .throw ⟨hcategory, by simp [htexts]⟩

theorem reads_failAt {token : Token} {cause : Cause}
    (hcategory : decide (cause.category = .backend) = false)
    (htexts : ∀ text ∈ cause.texts, OneLine text) : Reads fault post (failAt token cause) :=
  .throw ⟨hcategory, fun text hmem => .inl (htexts text hmem)⟩

theorem reads_integer (kind : Constant) (limit : Nat) {found : Option Token} (h : Found found) :
    Reads fault (fun _ => True) (lift (integer kind limit found)) := by
  cases found with
  | none => exact .throw ⟨rfl, by simp [Cause.texts]⟩
  | some token =>
    have htoken : OneLine token.text := h token rfl
    simp only [integer]
    split
    · exact .throw ⟨rfl, by simp [Cause.texts, htoken]⟩
    · split
      · exact .throw ⟨rfl, by simp [Cause.texts, htoken]⟩
      · exact .pure trivial

theorem reads_double {found : Option Token} (h : Found found) :
    Reads fault (fun _ => True) (lift (double found)) := by
  cases found with
  | none => exact .throw ⟨rfl, by simp [Cause.texts]⟩
  | some token =>
    have htoken : OneLine token.text := h token rfl
    simp only [double]
    split
    · exact .throw ⟨rfl, by simp [Cause.texts, htoken]⟩
    · split
      · exact .pure trivial
      · exact .throw ⟨rfl, by simp [Cause.texts, htoken]⟩

theorem reads_readConstant {value : Option Token → Except Diagnostic α}
    (h : ∀ found, Found found → Reads fault post (lift (value found))) :
    Reads fault post (readConstant value) :=
  .bind (reads_read Lexer.reads_next) h

theorem reads_require (text : String) : Reads fault (fun _ => True) (read (Lexer.require text)) :=
  reads_read (Lexer.reads_require text)

theorem reads_foldItems {handle : α → Token → BodyM α}
    {hforward : ∀ result token, Forward (handle result token)}
    (h : ∀ result token, token.Plain → Reads fault (fun _ => True) (handle result token))
    (result : α) : Reads fault (fun _ => True) (foldItems handle hforward result) :=
  .foldEach trivial (reads_read Lexer.reads_inner) fun result token _ htoken =>
    h result token htoken

theorem reads_forEachItem {handle : Token → BodyM Unit}
    {hforward : ∀ token, Forward (handle token)}
    (h : ∀ token, token.Plain → Reads fault (fun _ => True) (handle token)) :
    Reads fault (fun _ => True) (forEachItem handle hforward) :=
  .foldEach trivial (reads_read Lexer.reads_inner) fun _ token _ htoken => h token htoken

theorem reads_close {keyword : String} (h : OneLine keyword) :
    Reads fault (fun _ => True) (close keyword) := by
  refine .bind (reads_read Lexer.reads_next) ?_
  intro found hfound
  cases found with
  | none => exact reads_fail rfl rfl
  | some token =>
    have htoken : OneLine token.text := hfound token rfl
    exact .ite (fun _ => .pure trivial) fun _ => reads_failAt rfl (by simp [Cause.texts, htoken, h])

end

theorem reads_gamma : Reads fault (fun _ => True) gamma :=
  .bind (reads_readConstant fun _ => reads_double) fun _ _ => .bind (reads_change _) fun _ _ =>
    .bind (reads_close (by decide)) fun _ _ => reads_change _

theorem reads_intent : Reads fault (fun _ => True) intent := by
  have hintent : Reads fault (fun _ => True) readIntent := by
    refine .bind (reads_read Lexer.reads_next) ?_
    intro found hfound
    refine .bind (reads_integer _ _ hfound) ?_
    intro intent _
    exact .ite (fun _ => .pure trivial) fun _ => .throw ⟨rfl, by simp [Cause.texts]⟩
  exact .bind hintent fun _ _ => .bind (reads_close (by decide)) fun _ _ => reads_change _

theorem reads_readPoint (given : List Primary) (token : Token) :
    Reads fault (fun _ => True) (Chromaticities.readPoint given token) := by
  have hcoordinates : Reads fault (fun _ => True) Chromaticities.readCoordinates :=
    .bind (reads_require _) fun _ _ => .bind (reads_readConstant fun _ => reads_double) fun _ _ =>
      .bind (reads_require _) fun _ _ => .bind (reads_readConstant fun _ => reads_double)
      fun _ _ => .bind (reads_require _) fun _ _ => .pure trivial
  unfold Chromaticities.readPoint
  split
  · exact reads_failAt rfl (by simp [Cause.texts])
  · exact .bind hcoordinates fun _ _ => .bind (reads_change _) fun _ _ => .pure trivial

theorem reads_chromaticities : Reads fault (fun _ => True) chromaticities :=
  .bind (reads_foldItems (fun given token _ => reads_readPoint given token) _) fun _ _ =>
    .ite (fun _ => reads_change _) fun _ => reads_fail rfl rfl

theorem reads_setting {token : Token} (h : token.Plain) :
    Reads fault (fun _ => True) (Header.setting token) := by
  have hlong (f : Nat → Header.Setting) : Reads fault (fun _ => True) (f <$> readConstant long) :=
    .map (reads_readConstant fun _ => reads_integer _ _)
  have hbyte (f : Nat → Header.Setting) : Reads fault (fun _ => True) (f <$> readConstant byte) :=
    .map (reads_readConstant fun _ => reads_integer _ _)
  have htoken : OneLine token.text := h
  exact .ite (fun _ => hlong _) fun _ => .ite (fun _ => hlong _) fun _ =>
    .ite (fun _ => hbyte _) fun _ => .ite (fun _ => .pure trivial) fun _ =>
    .ite (fun _ => .pure trivial) fun _ => .ite (fun _ => .pure trivial) fun _ =>
    .ite (fun _ => .pure trivial) fun _ => .ite (fun _ => .pure trivial) fun _ =>
    reads_failAt rfl (by simp [Cause.texts, htoken]; decide)

theorem reads_header : Reads fault (fun _ => True) header := by
  refine .bind (reads_change _) fun _ _ => ?_
  refine .bind (reads_forEachItem fun token htoken => ?_) fun _ _ => ?_
  · exact .bind (reads_setting htoken) fun _ _ => reads_change _
  · exact .bind reads_image fun _ _ => .ite (fun _ => reads_fail rfl rfl) fun _ =>
      .ite (fun _ => reads_fail rfl rfl) fun _ => .pure trivial

theorem reads_readEntry (token : Token) :
    Reads fault (fun _ => True) (Palette.readEntry token) := by
  have hbyte : Reads fault (fun _ => True) (readConstant byte) :=
    reads_readConstant fun _ => reads_integer _ _
  have hcolors : Reads fault (fun _ => True) Palette.readColors :=
    .bind hbyte fun _ _ => .bind (reads_require _) fun _ _ => .bind hbyte fun _ _ =>
      .bind (reads_require _) fun _ _ => .bind hbyte fun _ _ => .bind (reads_require _)
      fun _ _ => .pure trivial
  have hfail {cause : Cause} (hcategory : decide (cause.category = .backend) = false)
      (htexts : cause.texts = []) : Reads fault (fun _ : Unit => True) (failAt token cause) :=
    reads_failAt hcategory (by simp [htexts])
  exact .ite (fun _ => .bind reads_image fun _ _ => .ite (fun _ => hfail rfl rfl) fun _ =>
    .bind hcolors fun _ _ => reads_change _) fun _ => hfail rfl rfl

theorem reads_palette : Reads fault (fun _ => True) palette :=
  .bind (reads_forEachItem fun token _ => reads_readEntry token) fun _ _ => reads_change _

end Block

end ScriptedPng
