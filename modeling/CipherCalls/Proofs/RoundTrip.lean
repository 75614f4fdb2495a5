/-
# Stored values are read back

What is stored is read back as it was: parameters, prices of all methods, tables of prices by width,
ciphertexts and handles, whatever numbers and bytes are in them.  Blanks that somebody puts between
the lexemes do not matter.  Hence different values never have the same text, and a file that was
written from parameters gives these parameters.
-/
import Mathlib
import CipherCalls.Proofs.PriceTexts
import CipherCalls.Proofs.Slots
import CipherCalls.Proofs.WrittenLists

namespace CipherCalls

open Json

/-! ## Readers read what is written -/

lemma WidthPrices.reads_write (p : WidthPrices) : Reads read p.write p :=
  WidthPrices.parts.reads_object (by decide) fun w => reads_uint64 (p.get w)

/-- The value of a field of the prices of all methods as it is written. -/
def GasCosts.writeField (g : GasCosts) : CostField → Lexemes
  | .table f => WidthPrices.write (g.get (.table f))
  | .price f => writeUInt64 (g.get (.price f))

lemma GasCosts.reads_write (g : GasCosts) : Reads read g.write g := by
  have hfields : ∀ f, Reads (CostField.reader f) (g.writeField f) (g.get f) := by
    rintro (f | f)
    · exact WidthPrices.reads_write (g.get (.table f))
    · exact reads_uint64 (g.get (.price f))
  exact GasCosts.parts.reads_object (by decide) hfields

lemma Params.reads_write (p : Params) : Reads read p.write p :=
  Params.parts.reads_object (by decide) fun _ => GasCosts.reads_write p.gasCosts

lemma Handle.reads_write (h : Handle) : Reads read h.write h := by
  have hread : Reads read h.write (.ofTail h.bytes) :=
    (reads_bytes_of_length h.length_bytes).map Handle.ofTail
  rwa [Handle.ofTail_bytes] at hread

namespace Ciphertext

/-- The fields of a ciphertext. -/
inductive Field where
  | width
  | payload
deriving DecidableEq

/-- What a field holds. -/
def Field.Value : Field → Type
  | .width => Width
  | .payload => Bytes

/-- The value of a field. -/
def get (c : Ciphertext) : (f : Field) → f.Value
  | .width => c.width
  | .payload => c.payload

/-- A ciphertext is its width and its payload. -/
def parts : Parts shape Field Field.Value where
  all := [.width, .payload]
  name
    | .width => "fhe_type"
    | .payload => "payload"
  reader
    | .width => Width.read
    | .payload => list readByte
  part f c := c.get f
  set
    | .width, w, c => { c with width := w }
    | .payload, p, c => { c with payload := p }
  fields_eq := rfl
  mem_all f := by cases f <;> decide
  name_injective := by
    intro f d h
    cases f <;> cases d <;> first | rfl | exact absurd h (by decide)
  part_set_self f b c := by cases f <;> rfl
  part_set_of_ne := by
    intro f d h b c
    cases f <;> cases d <;> first | rfl | exact absurd rfl h
  ext := by
    rintro ⟨w, p⟩ ⟨w', p'⟩ h
    obtain rfl : w = w' := h .width
    obtain rfl : p = p' := h .payload
    rfl

/-- The value of a field as it is written. -/
def writeField (c : Ciphertext) : Field → Lexemes
  | .width => c.width.write
  | .payload => writeBytes c.payload

lemma reads_write (c : Ciphertext) : Reads read c.write c := by
  have hfields : ∀ f, Reads (parts.reader f) (c.writeField f) (c.get f) := by
    rintro (_ | _)
    · exact reads_width c.width
    · exact reads_bytes c.payload
  exact parts.reads_object (by decide) hfields

end Ciphertext

/-! ## Texts and files -/

/-- A text is the text of its bytes. -/
lemma Bytes.toString?_ofString (s : String) : Bytes.toString? (Bytes.ofString s) = some s := by
  have hbytes : (⟨(Bytes.ofString s).toArray⟩ : ByteArray) = s.toByteArray := rfl
  rw [Bytes.toString?, hbytes, String.fromUTF8?, dif_pos s.isValidUTF8]
  rfl

/-- A file that holds a text is read as the text. -/
lemma Params.ofFile_ofString (s : String) :
    Params.ofFile (some (Bytes.ofString s)) = (Params.ofText s).mapError .invalid := by
  simp only [Params.ofFile, Bytes.toString?_ofString]

/-- Values are read back from any text that shows them, in particular from the compact one, and are
determined by it. -/
structure ReadBack {α : Type} (r : Reader α) (write : α → Lexemes) : Prop where
  spaced : ∀ v text w, Spaced (write v) text w → Blank w → document r text = .ok v
  compact : ∀ v, document r (write v).compact.toList = .ok v
  injective : Function.Injective fun v => (write v).compact

lemma ReadBack.of_reads {α : Type} {r : Reader α} {write : α → Lexemes}
    (h : ∀ v, Reads r (write v) v) : ReadBack r write := by
  have hspaced : ∀ v text w, Spaced (write v) text w → Blank w → document r text = .ok v :=
    fun v text w hs hw => (h v).yields.document hs hw
  have hcompact : ∀ v, document r (write v).compact.toList = .ok v :=
    fun v => hspaced v _ [] (spaced_compact (write v)) .nil
  refine ⟨hspaced, hcompact, fun v u huv => ?_⟩
  have hu := hcompact u
  rw [← show (write v).compact = (write u).compact from huv, hcompact v] at hu
  exact Except.ok.inj hu

/-- **What is stored is read back.** -/
theorem stored_values_read_back :
    ReadBack Params.read Params.write ∧ ReadBack GasCosts.read GasCosts.write ∧
      ReadBack WidthPrices.read WidthPrices.write ∧ ReadBack Ciphertext.read Ciphertext.write ∧
        ReadBack Handle.read Handle.write ∧
          ∀ (p : Params) (text : String) (w : List Char), Spaced p.write text.toList w → Blank w →
            Params.ofFile (some (Bytes.ofString text)) = .ok p := by
  refine ⟨.of_reads Params.reads_write, .of_reads GasCosts.reads_write,
    .of_reads WidthPrices.reads_write, .of_reads Ciphertext.reads_write,
    .of_reads Handle.reads_write, fun p text w hs hw => ?_⟩
  have hread : Params.ofText text = .ok p := (Params.reads_write p).yields.document hs hw
  rw [Params.ofFile_ofString, hread]
  rfl

/-- The default parameters, with a line break at the end of the file. -/
theorem Params.default_read_back :
    Params.ofFile (some (Bytes.ofString (Params.default.write.compact ++ "\n"))) =
      .ok Params.default := by
  refine stored_values_read_back.2.2.2.2.2 Params.default _ ['\n'] ?_ ?_
  · rw [String.toList_append, Lexemes.compact, String.toList_ofList]
    exact spaced_flatten _
  · exact blank_cons.mpr ⟨rfl, .nil⟩

end CipherCalls
