import Hailing.Text.Digits

/-!
# Percent encoding

In a path or a query a byte can be written as a percent sign and two
hexadecimal digits. A percent sign that does not stand before two of them
stands for itself. The bytes are text only if they are in UTF-8.
-/

namespace Hailing.Http

def bytesOfChar (c : Char) : List UInt8 := c.toString.toUTF8.toList

def percentBytes : List Char → List UInt8
  | '%' :: a :: b :: rest =>
    match Text.hexValue? a, Text.hexValue? b with
    | some high, some low => UInt8.ofNat (16 * high + low) :: percentBytes rest
    | _, _ => bytesOfChar '%' ++ percentBytes (a :: b :: rest)
  | c :: rest => bytesOfChar c ++ percentBytes rest
  | [] => []

/-- The text that is meant, if it is text. -/
def percentDecode (s : String) : Option String :=
  String.fromUTF8? ⟨(percentBytes s.toList).toArray⟩

/-! Where there is no percent sign each character stands for itself. -/

theorem toList_loop (bytes : ByteArray) (i : Nat) (seen : List UInt8) :
    ByteArray.toList.loop bytes i seen = seen.reverse ++ bytes.data.toList.drop i := by
  induction i, seen using ByteArray.toList.loop.induct bytes with
  | case1 i seen hlt ih =>
      have hi : i < bytes.data.toList.length := hlt
      rw [ByteArray.toList.loop, if_pos hlt, ih, List.drop_eq_getElem_cons hi]
      simp [ByteArray.get!, getElem!_pos, hlt]
  | case2 i seen hge =>
      rw [ByteArray.toList.loop, if_neg hge, List.drop_eq_nil_of_le (Nat.not_lt.1 hge),
        List.append_nil]

theorem bytesOfChar_eq (c : Char) : bytesOfChar c = String.utf8EncodeChar c := by
  rw [bytesOfChar, ByteArray.toList, toList_loop]
  simp [List.utf8Encode]

theorem percentBytes_of_plain {cs : List Char} (h : '%' ∉ cs) :
    percentBytes cs = cs.flatMap bytesOfChar := by
  induction cs with
  | nil => rfl
  | cons c rest ih =>
      obtain ⟨hc, hrest⟩ := not_or.1 (mt List.mem_cons.2 h)
      rw [percentBytes, ih hrest]
      · rfl
      · exact fun _ _ _ he => absurd he.symm hc

theorem percentDecode_of_plain {s : String} (h : '%' ∉ s.toList) :
    percentDecode s = some s := by
  have hbytes : (⟨(s.toList.flatMap bytesOfChar).toArray⟩ : ByteArray) = s.toByteArray := by
    rw [← String.utf8Encode_toList, List.utf8Encode, funext bytesOfChar_eq]
    exact ByteArray.ext List.data_toByteArray.symm
  rw [percentDecode, percentBytes_of_plain h, hbytes, String.fromUTF8?, dif_pos s.isValidUTF8]
  rfl

/-! ## Forms -/

/-- A value of a form, in which a plus sign stands for a blank. -/
def formDecode (cs : List Char) : Option String :=
  percentDecode (String.ofList (cs.map fun c => if c = '+' then ' ' else c))

/-- The names and values of a form; what stands before the first equals sign
is the name. -/
def formFields (s : String) : List (Option String × Option String) :=
  let fields := (s.toList.splitOn '&').filter (!·.isEmpty)
  fields.map fun cs =>
    (formDecode (cs.takeWhile (· ≠ '=')), formDecode ((cs.dropWhile (· ≠ '=')).drop 1))

end Hailing.Http
