import ScriptedPng.Proofs.Png.Plan

/-!
# Writing appends

Whatever becomes of a step of writing, what has been written before stays in front of it. If the
step fails, it has no line to tell, and its diagnostic is about the image.

## Main definitions

* `Failure.Unlined` — failures without a line.
* `Writer.Appends` — an action leaves what has been written, and its failures have no line.

## Main statements

* `Writer.appends_writeInfo`, `Writer.appends_writeImage`, … — the steps of writing append.
-/

namespace ScriptedPng

open Diagnostic

namespace Failure

/-- If the failure is a diagnostic, it is about the image, and has no line. -/
def Unlined (failure : Failure) : Prop :=
  ∀ diagnostic, failure = .diagnostic diagnostic →
    diagnostic.line = none ∧ diagnostic.cause.category = .backend

theorem unlined_ofCause {cause : Cause} (h : cause.category = .backend) :
    Unlined (.ofCause cause) := by
  rintro _ ⟨⟩
  exact ⟨rfl, h⟩

end Failure

namespace Png

open Failure

namespace Writer

variable {α : Type} {base : List Octets}

/-- What has been written goes on to begin with `base`, and failures have no line. -/
abbrev Appends (base : List Octets) (action : WriterM α) : Prop :=
  Ensures (fun writer => base <+: writer.sink.written) (fun _ => True) Unlined action

theorem appends_lift {result : Except Failure α}
    (h : ∀ failure, result = .error failure → failure.Unlined) : Appends base (lift result) := by
  cases result with
  | ok value => exact .pure trivial
  | error failure => exact .throw (h failure rfl)

theorem appends_mapError {ε : Type} {result : Except ε α} {f : ε → Failure}
    (h : ∀ fault, (f fault).Unlined) : Appends base (lift (result.mapError f)) := by
  refine appends_lift ?_
  rintro failure hfailure
  cases result <;> cases hfailure
  exact h _

theorem appends_write (octets : Octets) : Appends base (write octets) := by
  intro writer hwriter
  refine (outcome_write octets writer).mono ?_ ?_
  · intro _ after hafter
    refine ⟨trivial, ?_⟩
    change base <+: after.sink.written
    rw [hafter.1]
    exact hwriter.trans (List.prefix_append _ _)
  · intro failure after hafter
    obtain ⟨rfl, reason, -, rfl⟩ := hafter
    exact ⟨unlined_ofCause rfl, hwriter⟩

theorem appends_writeChunk (type : Octets) (data : Record.Field) :
    Appends base (writeChunk type data) := by
  have hrecord (fault : Record.Fault) : Unlined (.record fault) := by rintro _ ⟨⟩
  refine .bind (appends_mapError hrecord) fun chunk _ => ?_
  split
  · rename_i name _
    refine .bind (appends_mapError hrecord) fun _ _ => ?_
    split
    · exact .throw (unlined_ofCause rfl)
    · exact .throw (hrecord _)
    · exact .bind (appends_write _) fun _ _ _ h => ⟨trivial, h⟩
  · exact .throw (by rintro _ ⟨⟩)

-- Statements about writing a chunk are not to be unfolded into running the writer.
attribute [local irreducible] Writer.writeChunk

theorem appends_fixedPoint (value : Double) : Appends base (fixedPoint value) :=
  appends_mapError fun _ => by rintro _ ⟨⟩

/-- The checks of the header give diagnostics without a line. -/
theorem unlined_of_checkHeader {image : Image} {diagnostic : Diagnostic}
    (h : checkHeader image = .error diagnostic) : Unlined (.diagnostic diagnostic) := by
  rintro _ ⟨⟩
  unfold checkHeader at h
  grind [Cause.category]

theorem appends_writeInfo (image : Image) : Appends base (writeInfo image) := by
  have hcheck : Appends base (lift ((checkHeader image).mapError .diagnostic)) := by
    refine appends_lift fun failure hfailure => ?_
    cases hresult : checkHeader image with
    | ok type => simp [hresult, mapError_ok] at hfailure
    | error diagnostic =>
      obtain rfl : Failure.diagnostic diagnostic = failure := by
        simpa [hresult, mapError_error] using hfailure
      exact unlined_of_checkHeader hresult
  have hcoordinates : Appends base (image.chromaticities.coordinates.mapM fixedPoint) := by
    rw [mapM_fixedPoint]
    exact appends_mapError fun _ => by rintro _ ⟨⟩
  refine .bind hcheck fun type _ => .bind (appends_write _) fun _ _ => ?_
  refine .bind (appends_writeChunk _ _) fun _ _ => ?_
  refine .optional (fun hrest => .bind (appends_fixedPoint _) fun _ _ =>
    .bind (appends_writeChunk _ _) fun _ _ => hrest) ?_
  refine .optional (fun hrest => .bind (appends_writeChunk _ _) fun _ _ => hrest) ?_
  refine .optional (fun hrest => .bind hcoordinates fun _ _ =>
    .bind (appends_writeChunk _ _) fun _ _ => hrest) ?_
  exact .ite (fun _ => appends_writeChunk _ _) fun _ => .pure trivial

theorem appends_writeImage (image : Image) (data : Octets) :
    Appends base (writeImage image data) := by
  have hdata : Appends base (lift (imageData image data)) := by
    refine appends_lift fun failure hfailure => ?_
    unfold imageData at hfailure
    split at hfailure <;> cases hfailure
    · rintro _ ⟨⟩
    · exact unlined_ofCause rfl
  exact .bind hdata fun raw _ => .forM (fun _ => appends_writeChunk _ _) _

theorem appends_writeEnd : Appends base writeEnd := by
  have hchunk : Appends base (writeChunk endType (octetField [])) := appends_writeChunk _ _
  unfold writeEnd
  refine .bind hchunk fun _ _ => .bind .get fun writer _ => ?_
  split
  · exact .pure trivial
  · exact .throw (unlined_ofCause rfl)

end Writer

end Png

end ScriptedPng
