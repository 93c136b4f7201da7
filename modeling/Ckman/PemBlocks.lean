import Ckman.Radix
import Ckman.TrustRoot

/-!
# Files of several PEM blocks

What `pem_decode` finds in a file of blocks with text around them, and where a
block ends. A block that is skipped ends at the first END marker behind its
label, the body of a block that is decoded at the first one behind the line break
that follows the label.
-/
namespace Pem

open Host
open Text

set_option maxRecDepth 4000

/-- What is known of the codec: it restores what it encodes, in its own alphabet. -/
structure Base64.Lawful (base64 : Base64) : Prop where
  decode_encode : ∀ der, (base64.decode (utf8 (base64.encode der))).map (·.val) = some der
  alphabet : ∀ der, ∀ c ∈ base64.encode der,
    c ∈ "ABCDEFGHIJKLMNOPQRSTUVWXYZabcdefghijklmnopqrstuvwxyz0123456789+/=".toList

variable {base64 : Base64} {labels : List (List Char)}

def bodyLines (base64 : Base64) (der : Bytes) : List Char :=
  ((base64.encode der).toChunks 64).flatMap (· ++ ['\n'])

theorem alphabet_toList : "ABCDEFGHIJKLMNOPQRSTUVWXYZabcdefghijklmnopqrstuvwxyz0123456789+/=".toList =
    ['A', 'B', 'C', 'D', 'E', 'F', 'G', 'H', 'I', 'J', 'K', 'L', 'M', 'N', 'O', 'P', 'Q', 'R', 'S', 'T', 'U',
     'V', 'W', 'X', 'Y', 'Z', 'a', 'b', 'c', 'd', 'e', 'f', 'g', 'h', 'i', 'j', 'k', 'l', 'm', 'n', 'o', 'p',
     'q', 'r', 's', 't', 'u', 'v', 'w', 'x', 'y', 'z', '0', '1', '2', '3', '4', '5', '6', '7', '8', '9', '+',
     '/', '='] :=
  String.toList_ofList

theorem Base64.Lawful.visible (h : base64.Lawful) {der : Bytes} {c : Char} (hc : c ∈ base64.encode der) :
    c ≠ '-' ∧ isWhitespace c = false :=
  forall_mem_of_all (p := fun c => c ≠ '-' ∧ isWhitespace c = false) (by decide) c
    (alphabet_toList ▸ h.alphabet der c hc)

theorem not_mem_bodyLines (h : base64.Lawful) (der : Bytes) : '-' ∉ bodyLines base64 der := by
  intro hmem
  obtain ⟨line, hline, hc⟩ := List.mem_flatMap.mp hmem
  rcases List.mem_append.mp hc with hc | hc
  · have hflat : '-' ∈ (base64.encode der |>.toChunks 64).flatten := List.mem_flatten_of_mem hline hc
    rw [Radix.flatten_toChunks (by decide)] at hflat
    exact (h.visible hflat).1 rfl
  · exact absurd hc (by decide)

/-- Without its line breaks the body is what the codec wrote. -/
theorem filter_bodyLines (h : base64.Lawful) (der : Bytes) :
    (bodyLines base64 der).filter (fun c => !isWhitespace c) = base64.encode der := by
  have hline : ∀ line ∈ (base64.encode der).toChunks 64,
      (line ++ ['\n']).filter (fun c => !isWhitespace c) = line := by
    intro line hline
    have hkeep : line.filter (fun c => !isWhitespace c) = line := by
      refine List.filter_eq_self.mpr fun c hc => ?_
      have hflat := List.mem_flatten_of_mem hline hc
      rw [Radix.flatten_toChunks (by decide)] at hflat
      rw [(h.visible hflat).2]
      rfl
    rw [List.filter_append, hkeep, show ['\n'].filter (fun c => !isWhitespace c) = [] by decide,
      List.append_nil]
  rw [bodyLines, List.filter_flatMap, List.flatMap_congr hline, List.flatMap_id',
    Radix.flatten_toChunks (by decide)]

/-- The dashes that close the BEGIN line do not start an END marker. -/
theorem find_endMarker_line (label rest : List Char) :
    find (endMarker label) ("-----\n".toList ++ rest) =
      (find (endMarker label) rest).map (· + 6) := by
  obtain ⟨more, hmarker⟩ : ∃ more, endMarker label = '-' :: '-' :: '-' :: '-' :: '-' :: 'E' :: more :=
    ⟨_, rfl⟩
  rw [show "-----\n".toList = ['-', '-', '-', '-', '-', '\n'] by rfl, hmarker]
  simp only [List.cons_append, List.nil_append, find]
  simp [List.isPrefixOf, Option.map_map, Function.comp_def]

theorem find_bodyEnd (h : base64.Lawful) (label rest : List Char) (der : Bytes) :
    find (endMarker label) (bodyLines base64 der ++ (endMarker label ++ rest)) =
      some (bodyLines base64 der).length := by
  obtain ⟨more, hmarker⟩ : ∃ more, endMarker label = '-' :: more := ⟨_, rfl⟩
  have hself := find_self_append (endMarker label) rest
  rw [hmarker] at hself ⊢
  rw [find_append_of_not_mem (not_mem_bodyLines h der), hself]
  simp

/-- A body that the encoder wrote is decoded to what it was written from. -/
theorem decodeBody_lines (h : base64.Lawful) (label rest : List Char) (der : Bytes) :
    decodeBody base64 ("-----\n".toList ++ (bodyLines base64 der ++ (endMarker label ++ rest)))
      (endMarker label) = .ok der := by
  have hnewline : find ['\n'] ("-----\n".toList ++
      (bodyLines base64 der ++ (endMarker label ++ rest))) = some 5 := by
    have hdashes : "-----\n".toList = "-----".toList ++ ['\n'] := by decide
    rw [hdashes, List.append_assoc, find_append_of_not_mem (by decide), find_self_append]
    rfl
  have hdrop : ("-----\n".toList ++ (bodyLines base64 der ++ (endMarker label ++ rest))).drop 6 =
      bodyLines base64 der ++ (endMarker label ++ rest) := rfl
  have hbody : (((bodyLines base64 der ++ (endMarker label ++ rest)).take
      (bodyLines base64 der).length).filter fun c => !isWhitespace c) = base64.encode der := by
    rw [List.take_left, filter_bodyLines h]
  -- The type of the decoded bytes names the body, which can so only be replaced as a whole.
  have hok : ∀ source, source = base64.encode der →
      (do
        let decoded ← okOr (base64.decode (utf8 source)) KeyError.pem
        pure decoded.val) = Except.ok der := by
    rintro source rfl
    obtain ⟨decoded, hdecoded, hval⟩ := Option.map_eq_some_iff.mp (h.decode_encode der)
    rw [hdecoded]
    exact congrArg Except.ok hval
  rw [decodeBody, hnewline]
  simp only [okOr, Except.ok_bind, hdrop, find_bodyEnd h]
  exact hok _ hbody

/-- One round of the loop over a block behind text that has no BEGIN marker. -/
theorem decodeBlocks_block (h : base64.Lawful) {pre label : List Char} (rest : List Char)
    (der : Bytes) (hpre : contains beginMarker pre = false) (hlabel : '-' ∉ label) (fuel : Nat) :
    decodeBlocks base64 labels (fuel + 1)
        (pre ++ (beginMarker ++ (label ++ ("-----\n".toList ++
          (bodyLines base64 der ++ (endMarker label ++ rest)))))) =
      if label ∈ labels then .ok (label, der) else decodeBlocks base64 labels fuel rest := by
  let tail := "-----\n".toList ++ (bodyLines base64 der ++ (endMarker label ++ rest))
  have hstart : find beginMarker (pre ++ (beginMarker ++ (label ++ tail))) = some pre.length :=
    find_append_of_free (by decide) (find_eq_none_iff.mp (contains_eq_false_iff.mp hpre)) _
  have hblock : (pre ++ (beginMarker ++ (label ++ tail))).drop (pre.length + beginMarker.length) =
      label ++ tail := by
    rw [← List.append_assoc, ← List.length_append, List.drop_left]
  have hlabelEnd : find "-----".toList (label ++ tail) = some label.length := by
    have hdashes : "-----".toList = '-' :: "----".toList := by decide
    have hself : find ('-' :: "----".toList) tail = some 0 := find_self_append _ _
    rw [hdashes, find_append_of_not_mem hlabel, hself]
    simp
  have hstop : find (endMarker label) tail = some ((bodyLines base64 der).length + 6) := by
    rw [find_endMarker_line, find_bodyEnd h]
    rfl
  have hrest : tail.drop ((bodyLines base64 der).length + 6 + (endMarker label).length) = rest := by
    have hassoc : tail = ("-----\n".toList ++ bodyLines base64 der ++ endMarker label) ++ rest := by
      simp only [tail, List.append_assoc]
    rw [hassoc]
    refine List.drop_left' ?_
    simp only [List.length_append]
    rw [show "-----\n".toList.length = 6 by decide]
    omega
  change decodeBlocks base64 labels (fuel + 1) (pre ++ (beginMarker ++ (label ++ tail))) = _
  rw [decodeBlocks, hstart]
  simp only [okOr, Except.ok_bind, hblock, hlabelEnd, List.take_left, List.drop_left, hstop, hrest]
  by_cases hwanted : label ∈ labels
  · rw [if_pos hwanted, if_pos hwanted, decodeBody_lines h]
    rfl
  · rw [if_neg hwanted, if_neg hwanted]

structure Block where
  label : List Char
  der : Bytes
  after : List Char

/-- Blocks as `pem_encode` writes them, with text before, between and after them. -/
def bundle (base64 : Base64) (before : List Char) (blocks : List Block) : Bytes :=
  utf8 before ++ blocks.flatMap fun block =>
    pemEncode base64 block.label block.der ++ utf8 block.after

def bundleText (base64 : Base64) (before : List Char) (blocks : List Block) : List Char :=
  before ++ blocks.flatMap fun block => pemText base64 block.label block.der ++ block.after

theorem utf8_flatMap {α : Type} (f : α → List Char) (l : List α) :
    utf8 (l.flatMap f) = l.flatMap fun a => utf8 (f a) :=
  List.flatMap_assoc

theorem bundle_eq (before : List Char) (blocks : List Block) :
    bundle base64 before blocks = utf8 (bundleText base64 before blocks) := by
  rw [bundle, bundleText, utf8_append, utf8_flatMap]
  simp only [pemEncode, utf8_append]

/-- What a file of blocks holds for the wanted labels. -/
def firstWanted (labels : List (List Char)) (blocks : List Block) :
    Except KeyError (List Char × Bytes) :=
  match blocks.find? fun block => labels.contains block.label with
  | some block => .ok (block.label, block.der)
  | none => .error .pem

theorem bundleText_cons (before : List Char) (block : Block) (blocks : List Block) :
    bundleText base64 before (block :: blocks) =
      before ++ (beginMarker ++ (block.label ++ ("-----\n".toList ++
        (bodyLines base64 block.der ++ (endMarker block.label ++
          bundleText base64 ('\n' :: block.after) blocks))))) := by
  simp only [bundleText, List.flatMap_cons, pemText, bodyLines, List.append_assoc, List.cons_append,
    List.nil_append]

theorem contains_newline_cons {text : List Char} (h : contains beginMarker text = false) :
    contains beginMarker ('\n' :: text) = false := by
  rw [contains_eq_false_iff] at h ⊢
  have hskip := @find_append_of_not_mem '-' "----BEGIN ".toList ['\n']
    (by decide) text
  change find beginMarker ('\n' :: text) = (find beginMarker text).map _ at hskip
  rw [hskip, h]
  rfl

theorem decodeBlocks_bundle (h : base64.Lawful) {before : List Char} {blocks : List Block}
    (hlabels : ∀ block ∈ blocks, '-' ∉ block.label)
    (hbefore : contains beginMarker before = false)
    (hafter : ∀ block ∈ blocks, contains beginMarker block.after = false) {fuel : Nat}
    (hfuel : (bundleText base64 before blocks).length ≤ fuel) :
    decodeBlocks base64 labels fuel (bundleText base64 before blocks) = firstWanted labels blocks := by
  induction blocks generalizing before fuel with
  | nil =>
    have htext : bundleText base64 before [] = before := by
      rw [bundleText, List.flatMap_nil, List.append_nil]
    rw [htext]
    cases fuel with
    | zero => rfl
    | succ fuel =>
      rw [decodeBlocks, contains_eq_false_iff.mp hbefore]
      rfl
  | cons block blocks ih =>
    obtain ⟨hlabel, hlabels⟩ := List.forall_mem_cons.mp hlabels
    obtain ⟨hnext, hafter⟩ := List.forall_mem_cons.mp hafter
    rw [bundleText_cons] at hfuel ⊢
    have hmarker : beginMarker.length = 11 := by decide
    simp only [List.length_append] at hfuel
    obtain ⟨fuel, rfl⟩ : ∃ m, fuel = m + 1 := ⟨fuel - 1, by omega⟩
    rw [decodeBlocks_block h _ _ hbefore hlabel, firstWanted, List.find?_cons]
    by_cases hwanted : block.label ∈ labels
    · rw [if_pos hwanted, List.contains_iff_mem.mpr hwanted]
    · have hskip : labels.contains block.label = false :=
        Bool.eq_false_iff.mpr (mt List.contains_iff_mem.mp hwanted)
      rw [if_neg hwanted, ih hlabels (contains_newline_cons hnext) hafter (by omega), firstWanted, hskip]

theorem armoured_bundle {before : List Char} {blocks : List Block} (hne : blocks ≠ []) :
    armoured (bundle base64 before blocks) = some (bundleText base64 before blocks) := by
  obtain ⟨block, blocks, rfl⟩ := List.exists_cons_of_ne_nil hne
  rw [armoured, bundle_eq, fromUtf8_utf8]
  refine Option.filter_eq_some_iff.mpr ⟨rfl, contains_iff_infix.mpr ?_⟩
  have hfront : "-----BEGIN".toList <+: beginMarker := by decide
  rw [bundleText_cons]
  exact hfront.isInfix.trans ((List.prefix_append _ _).isInfix.trans (List.suffix_append _ _).isInfix)

/-- The first block with a wanted label is found in any file of blocks, whatever
text and whichever other blocks stand around it; without such a block the file is
refused. -/
theorem pemDecode_bundle (h : base64.Lawful) (labels : List (List Char)) (before : List Char)
    (blocks : List Block) (hne : blocks ≠ []) (hlabels : ∀ block ∈ blocks, '-' ∉ block.label)
    (hbefore : contains beginMarker before = false)
    (hafter : ∀ block ∈ blocks, contains beginMarker block.after = false) :
    pemDecode base64 (bundle base64 before blocks) labels = firstWanted labels blocks := by
  rw [pemDecode_armoured (armoured_bundle hne)]
  exact decodeBlocks_bundle h hlabels hbefore hafter (Nat.le_refl _)

theorem utf8_pad_cons (cs : List Char) : utf8 ('=' :: cs) = 0x3d :: utf8 cs := by
  rw [utf8_cons, utf8EncodeChar_of_lt (by decide), List.singleton_append]
  rfl

namespace Fixture

open Attestation.Fixture (sextet letter letters decodeQuads encodeQuads testBase64)

theorem letter_ascii {n : Nat} (h : n < 64) :
    (letter n).toNat < 128 ∧ sextet (letter n).toUInt8 = some n ∧ (letter n).toUInt8 ≠ 0x3d := by
  have hall : ∀ n < 64, (letter n).toNat < 128 ∧ sextet (letter n).toUInt8 = some n ∧
      (letter n).toUInt8 ≠ 0x3d := by
    decide
  exact hall n h

theorem letter_mem {n : Nat} (h : n < 64) :
    letter n ∈ "ABCDEFGHIJKLMNOPQRSTUVWXYZabcdefghijklmnopqrstuvwxyz0123456789+/=".toList := by
  rw [alphabet_toList]
  refine List.mem_of_getElem? (i := n) ?_
  revert n
  decide

theorem utf8_letter_cons {n : Nat} (h : n < 64) (cs : List Char) :
    utf8 (letter n :: cs) = (letter n).toUInt8 :: utf8 cs := by
  rw [utf8_cons, utf8EncodeChar_of_lt (letter_ascii h).1, List.singleton_append]

theorem decodeQuads_quad {a b c d : Nat} (ha : a < 64) (hb : b < 64) (hc : c < 64) (hd : d < 64)
    (rest : Bytes) :
    decodeQuads ((letter a).toUInt8 :: (letter b).toUInt8 :: (letter c).toUInt8 ::
        (letter d).toUInt8 :: rest) =
      (decodeQuads rest).map fun out =>
        UInt8.ofNat ((64 * (64 * (64 * a + b) + c) + d) / 65536) ::
          UInt8.ofNat ((64 * (64 * (64 * a + b) + c) + d) / 256) ::
          UInt8.ofNat (64 * (64 * (64 * a + b) + c) + d) :: out := by
  obtain ⟨-, ha, -⟩ := letter_ascii ha
  obtain ⟨-, hb, -⟩ := letter_ascii hb
  obtain ⟨-, hc, -⟩ := letter_ascii hc
  obtain ⟨-, hd, hdpad⟩ := letter_ascii hd
  rw [decodeQuads]
  · rw [ha, hb, hc, hd]
    cases decodeQuads rest <;> rfl
  · intro _ h
    exact absurd h hdpad
  · intro h
    exact absurd h hdpad

theorem ofNat_eq {b : UInt8} {n : Nat} (h : n % 256 = b.toNat) : UInt8.ofNat n = b := by
  rw [← UInt8.toNat_inj, UInt8.toNat_ofNat', ← h]

theorem mod_lt_64 (m : Nat) : m % 64 < 64 := Nat.mod_lt m (by decide)

theorem decodeQuads_pad_two {x y : UInt8} {m n k : Nat} (hx : sextet x = some m)
    (hy : sextet y = some n) (hk : 64 * m + n = k) (hrest : k % 16 = 0) :
    decodeQuads [x, y, 0x3d, 0x3d] = some [UInt8.ofNat (k / 16)] := by
  subst hk
  rw [decodeQuads, hx, hy]
  exact if_pos hrest

theorem decodeQuads_pad_one {x y z : UInt8} {m n l k : Nat} (hx : sextet x = some m)
    (hy : sextet y = some n) (hz : sextet z = some l) (hpad : z ≠ 0x3d)
    (hk : 64 * (64 * m + n) + l = k) (hrest : k % 4 = 0) :
    decodeQuads [x, y, z, 0x3d] = some [UInt8.ofNat (k / 1024), UInt8.ofNat (k / 4)] := by
  subst hk
  rw [decodeQuads]
  · rw [hx, hy, hz]
    exact if_pos hrest
  · exact fun h => hpad h

theorem decodeQuads_one (a : UInt8) : decodeQuads (utf8 (encodeQuads [a])) = some [a] := by
  have ha : a.toNat < 256 := a.toNat_lt
  simp only [encodeQuads, letters, List.map_cons, List.map_nil, List.cons_append, List.nil_append]
  generalize hN : a.toNat * 65536 = N
  have hjoin : 64 * (N / 2 ^ 18 % 64) + N / 2 ^ 12 % 64 = a.toNat * 16 := by omega
  rw [utf8_letter_cons (mod_lt_64 _), utf8_letter_cons (mod_lt_64 _), utf8_pad_cons, utf8_pad_cons,
    utf8_nil, decodeQuads_pad_two (letter_ascii (mod_lt_64 _)).2.1 (letter_ascii (mod_lt_64 _)).2.1
      hjoin (Nat.mul_mod_left _ _), ofNat_eq (b := a) (by omega)]

theorem decodeQuads_two (a b : UInt8) : decodeQuads (utf8 (encodeQuads [a, b])) = some [a, b] := by
  have ha : a.toNat < 256 := a.toNat_lt
  have hb : b.toNat < 256 := b.toNat_lt
  simp only [encodeQuads, letters, List.map_cons, List.map_nil, List.cons_append, List.nil_append]
  generalize hN : a.toNat * 65536 + b.toNat * 256 = N
  have hjoin : 64 * (64 * (N / 2 ^ 18 % 64) + N / 2 ^ 12 % 64) + N / 2 ^ 6 % 64 = N / 64 := by
    omega
  have hthird := letter_ascii (mod_lt_64 (N / 2 ^ 6))
  rw [utf8_letter_cons (mod_lt_64 _), utf8_letter_cons (mod_lt_64 _), utf8_letter_cons (mod_lt_64 _),
    utf8_pad_cons, utf8_nil, decodeQuads_pad_one (letter_ascii (mod_lt_64 _)).2.1
      (letter_ascii (mod_lt_64 _)).2.1 hthird.2.1 hthird.2.2 hjoin (by omega),
    ofNat_eq (b := a) (by omega), ofNat_eq (b := b) (by omega)]

theorem decodeQuads_three (a b c : UInt8) {rest : Bytes}
    (ih : decodeQuads (utf8 (encodeQuads rest)) = some rest) :
    decodeQuads (utf8 (encodeQuads (a :: b :: c :: rest))) = some (a :: b :: c :: rest) := by
  have ha : a.toNat < 256 := a.toNat_lt
  have hb : b.toNat < 256 := b.toNat_lt
  have hc : c.toNat < 256 := c.toNat_lt
  simp only [encodeQuads, letters, List.map_cons, List.map_nil, List.cons_append, List.nil_append]
  generalize hN : a.toNat * 65536 + b.toNat * 256 + c.toNat = N
  have hjoin : 64 * (64 * (64 * (N / 2 ^ 18 % 64) + N / 2 ^ 12 % 64) + N / 2 ^ 6 % 64) +
      N / 2 ^ 0 % 64 = N := by
    omega
  have hfirst : UInt8.ofNat (N / 65536) = a := ofNat_eq (by omega)
  have hsecond : UInt8.ofNat (N / 256) = b := ofNat_eq (by omega)
  have hthird : UInt8.ofNat N = c := ofNat_eq (by omega)
  rw [utf8_letter_cons (mod_lt_64 _), utf8_letter_cons (mod_lt_64 _),
    utf8_letter_cons (mod_lt_64 _), utf8_letter_cons (mod_lt_64 _),
    decodeQuads_quad (mod_lt_64 _) (mod_lt_64 _) (mod_lt_64 _) (mod_lt_64 _), hjoin, ih, hfirst,
    hsecond, hthird]
  rfl

theorem decodeQuads_encodeQuads : ∀ der : Bytes, decodeQuads (utf8 (encodeQuads der)) = some der
  | [] => rfl
  | [a] => decodeQuads_one a
  | [a, b] => decodeQuads_two a b
  | a :: b :: c :: rest => decodeQuads_three a b c (decodeQuads_encodeQuads rest)

theorem length_encodeQuads : ∀ der : Bytes, der.length ≤ (encodeQuads der).length
  | [] => Nat.le_refl _
  | [_] => by simp [encodeQuads, letters]
  | [_, _] => by simp [encodeQuads, letters]
  | _ :: _ :: _ :: rest => by
    have ih := length_encodeQuads rest
    simp only [encodeQuads, letters, List.length_append, List.length_map, List.length_cons,
      List.length_nil]
    omega

theorem mem_letters {n : Nat} {shifts : List Nat} {c : Char} (h : c ∈ letters n shifts) :
    ∃ m < 64, c = letter m := by
  obtain ⟨shift, -, rfl⟩ := List.mem_map.mp h
  exact ⟨_, Nat.mod_lt _ (by decide), rfl⟩

theorem mem_encodeQuads : ∀ {der : Bytes} {c : Char}, c ∈ encodeQuads der →
    (∃ n < 64, c = letter n) ∨ c = '='
  | [], _, h => by cases h
  | [_], _, h => by
    rcases List.mem_append.mp h with h | h
    · exact .inl (mem_letters h)
    · exact .inr (by simpa using h)
  | [_, _], _, h => by
    rcases List.mem_append.mp h with h | h
    · exact .inl (mem_letters h)
    · exact .inr (by simpa using h)
  | _ :: _ :: _ :: _, _, h => by
    rcases List.mem_append.mp h with h | h
    · exact .inl (mem_letters h)
    · exact mem_encodeQuads h

theorem testBase64_lawful : Base64.Lawful testBase64 where
  decode_encode der := by
    have hlen : der.length ≤ (utf8 (encodeQuads der)).length :=
      (length_encodeQuads der).trans (length_le_utf8 _)
    have hdecode : testBase64.decode (utf8 (encodeQuads der)) = some ⟨der, hlen⟩ := by
      simp only [testBase64, decodeQuads_encodeQuads, dif_pos hlen]
    exact congrArg (Option.map Subtype.val) hdecode
  alphabet der c hc := by
    rcases mem_encodeQuads hc with ⟨n, hn, rfl⟩ | rfl
    · exact letter_mem hn
    · rw [alphabet_toList]
      decide

end Fixture

/-- A private key behind a certificate and a line of text. -/
theorem pemDecode_bundle_key :
    pemDecode Attestation.Fixture.testBase64
        (bundle Attestation.Fixture.testBase64 "subject=ckman\n".toList
          [⟨"CERTIFICATE".toList, [0x30, 0x01, 0x00], "Key:\n".toList⟩,
            ⟨"PRIVATE KEY".toList, [0x30, 0x02, 0x05, 0x00], []⟩])
        ["PRIVATE KEY".toList, "EC PRIVATE KEY".toList] =
      .ok ("PRIVATE KEY".toList, [0x30, 0x02, 0x05, 0x00]) :=
  pemDecode_bundle Fixture.testBase64_lawful _ _ _ (List.cons_ne_nil _ _)
    (forall_mem_of_all (by decide)) (by decide) (by
      intro block hblock
      rcases List.mem_pair.mp hblock with rfl | rfl <;> decide)

/-- A block whose label has been read; the tail begins at the end of the label. -/
structure Opened where
  label : List Char
  tail : List Char
  deriving DecidableEq

def nextBlock (text : List Char) : Option Opened := do
  let start ← find beginMarker text
  let block := text.drop (start + beginMarker.length)
  let labelEnd ← find "-----".toList block
  pure ⟨block.take labelEnd, block.drop labelEnd⟩

namespace Opened

/-- `block_end`, where the marker begins: behind it the scan for the next block resumes. -/
def skipStop (block : Opened) : Option Nat := find (endMarker block.label) block.tail

/-- `body_start`. -/
def bodyStart (block : Opened) : Option Nat := (find ['\n'] block.tail).map (· + 1)

/-- `end`: where the marker begins that terminates the body. -/
def bodyStop (block : Opened) : Option Nat := do
  let start ← block.bodyStart
  let stop ← find (endMarker block.label) (block.tail.drop start)
  pure (start + stop)

/-- The text behind the marker at which the block ends when it is skipped. -/
def afterSkip (block : Opened) (stop : Nat) : List Char :=
  block.tail.drop (stop + (endMarker block.label).length)

/-- A line break stands between the label and the first END marker behind it. -/
def BreaksLine (block : Opened) : Prop := ∀ stop, block.skipStop = some stop → '\n' ∈ block.tail.take stop

end Opened

/-- The blocks that the loop comes to, as far as a wanted one. -/
def reachedBlocks (labels : List (List Char)) : Nat → List Char → List Opened
  | 0, _ => []
  | fuel + 1, text =>
    match nextBlock text with
    | none => []
    | some block =>
      block ::
        match block.skipStop with
        | none => []
        | some stop =>
          if labels.contains block.label then []
          else reachedBlocks labels fuel (block.afterSkip stop)

/-- The blocks that `pem_decode` reaches in its input. -/
def reached (input : Bytes) (labels : List (List Char)) : List Opened :=
  match armoured input with
  | none => []
  | some text => reachedBlocks labels text.length text

/-- The body stands between its start and the marker that terminates it. -/
theorem decodeBody_eq (block : Opened) :
    decodeBody base64 block.tail (endMarker block.label) = (do
      let start ← okOr block.bodyStart .pem
      let stop ← okOr block.bodyStop .pem
      let decoded ← okOr (base64.decode (utf8 (((block.tail.take stop).drop start).filter
        fun c => !isWhitespace c))) .pem
      pure decoded.val) := by
  rw [decodeBody, Opened.bodyStop, Opened.bodyStart]
  cases find ['\n'] block.tail with
  | none => rfl
  | some newline =>
    simp only [Option.map_some, okOr, Except.ok_bind, Option.bind_eq_bind, Option.bind_some]
    cases find (endMarker block.label) (block.tail.drop (newline + 1)) with
    | none => rfl
    | some stop =>
      have hcut : (block.tail.take (newline + 1 + stop)).drop (newline + 1) =
          (block.tail.drop (newline + 1)).take stop := by
        rw [List.drop_take, Nat.add_sub_cancel_left]
      change (do
          let decoded ← okOr (base64.decode (utf8 (((block.tail.drop (newline + 1)).take stop).filter
            fun c => !isWhitespace c))) KeyError.pem
          pure decoded.val) = (do
          let decoded ← okOr (base64.decode (utf8 (((block.tail.take (newline + 1 + stop)).drop
            (newline + 1)).filter fun c => !isWhitespace c))) KeyError.pem
          pure decoded.val)
      rw [hcut]

/-- One round of the loop. -/
theorem decodeBlocks_succ (fuel : Nat) (text : List Char) :
    decodeBlocks base64 labels (fuel + 1) text =
      match nextBlock text with
      | none => .error .pem
      | some block =>
        match block.skipStop with
        | none => .error .pem
        | some stop =>
          if block.label ∈ labels then
            (decodeBody base64 block.tail (endMarker block.label)).map (block.label, ·)
          else decodeBlocks base64 labels fuel (block.afterSkip stop) := by
  rw [decodeBlocks, nextBlock]
  cases find beginMarker text with
  | none => rfl
  | some start =>
    simp only [okOr, Except.ok_bind, Option.bind_eq_bind, Option.bind_some]
    cases find "-----".toList (text.drop (start + beginMarker.length)) with
    | none => rfl
    | some labelEnd =>
      simp only [Except.ok_bind, Option.bind_some, Option.pure_def, Opened.skipStop]
      cases find (endMarker ((text.drop (start + beginMarker.length)).take labelEnd))
          ((text.drop (start + beginMarker.length)).drop labelEnd) with
      | none => rfl
      | some stop =>
        simp only [Except.ok_bind, Opened.afterSkip]
        split_ifs
        · cases decodeBody base64 ((text.drop (start + beginMarker.length)).drop labelEnd)
            (endMarker ((text.drop (start + beginMarker.length)).take labelEnd)) <;> rfl
        · rfl

/-- The loop goes through the reached blocks, and the last of them decides. -/
theorem decodeBlocks_eq_reached (fuel : Nat) (text : List Char) :
    decodeBlocks base64 labels fuel text =
      match (reachedBlocks labels fuel text).getLast? with
      | none => .error .pem
      | some block =>
        if block.skipStop.isSome ∧ block.label ∈ labels then
          (decodeBody base64 block.tail (endMarker block.label)).map (block.label, ·)
        else .error .pem := by
  induction fuel generalizing text with
  | zero => rfl
  | succ fuel ih =>
    rw [decodeBlocks_succ, reachedBlocks]
    cases nextBlock text with
    | none => rfl
    | some block =>
      cases hstop : block.skipStop with
      | none => simp [hstop]
      | some stop =>
        by_cases hwanted : block.label ∈ labels
        · simp [hstop, hwanted]
        · have hskip : ¬ labels.contains block.label = true := mt List.contains_iff_mem.mp hwanted
          simp only [hstop, if_neg hwanted, if_neg hskip]
          rw [ih]
          cases hrest : reachedBlocks labels fuel (block.afterSkip stop) with
          | nil => simp [hwanted]
          | cons next rest => rw [List.getLast?_cons_cons]

namespace Opened

/-- The two searches for the END marker agree on a block exactly if a line break
comes before the marker that the first of them finds. -/
theorem skipStop_eq_bodyStop_iff (block : Opened) :
    block.skipStop = block.bodyStop ↔ block.BreaksLine := by
  have hbody : ∀ {stop}, block.bodyStop = some stop ↔ ∃ newline s, find ['\n'] block.tail = some newline ∧
      find (endMarker block.label) (block.tail.drop (newline + 1)) = some s ∧ newline + 1 + s = stop := by
    intro stop
    simp only [bodyStop, bodyStart, Option.bind_eq_bind, Option.bind_eq_some_iff,
      Option.map_eq_some_iff, Option.pure_def, Option.some.injEq]
    constructor
    · rintro ⟨start, ⟨newline, hnewline, rfl⟩, s, hs, hstop⟩
      exact ⟨newline, s, hnewline, hs, hstop⟩
    · rintro ⟨newline, s, hnewline, hs, hstop⟩
      exact ⟨newline + 1, ⟨newline, hnewline, rfl⟩, s, hs, hstop⟩
  constructor
  · intro heq stop hstop
    obtain ⟨newline, s, hnewline, -, hsum⟩ := hbody.mp (heq ▸ hstop)
    exact find_singleton_lt_iff.mp ⟨newline, by omega, hnewline⟩
  · intro hbreaks
    cases hskip : block.skipStop with
    | none =>
      refine (Option.eq_none_iff_forall_ne_some.mpr fun stop hstop => ?_).symm
      obtain ⟨newline, s, -, hs, -⟩ := hbody.mp hstop
      rw [find_drop_eq_none hskip] at hs
      cases hs
    | some stop =>
      obtain ⟨newline, hlt, hnewline⟩ := find_singleton_lt_iff.mpr (hbreaks stop hskip)
      refine (hbody.mpr ⟨newline, stop - (newline + 1), hnewline, ?_, by omega⟩).symm
      exact find_drop hskip hlt

end Opened

/-- In every text, the blocks that the decoder reaches end at the same marker whether
they are skipped or decoded, exactly if each of them has a line break between its label
and the first END marker behind that. -/
theorem reached_stops_agree_iff (input : Bytes) (labels : List (List Char)) :
    (∀ block ∈ reached input labels, block.skipStop = block.bodyStop) ↔
      ∀ block ∈ reached input labels, block.BreaksLine :=
  forall₂_congr fun block _ => block.skipStop_eq_bodyStop_iff

namespace Fixture

/-- A block with END markers on its BEGIN line and on a line of its own. -/
def twiceEnded : List Char := "-----BEGIN A-----END A-----\nAAAA\n-----END A-----\n".toList

end Fixture

/-- A skipped block ends on its BEGIN line, a decoded one two lines further down. -/
theorem reached_stops_differ :
    ¬ ∀ input labels, ∀ block ∈ reached input labels, block.skipStop = block.bodyStop := by
  intro h
  let block : Opened := ⟨"A".toList, "-----END A-----\nAAAA\n-----END A-----\n".toList⟩
  have hreached : block ∈ reached (utf8 Fixture.twiceEnded) [] := by
    have harmour : armoured (utf8 Fixture.twiceEnded) = some Fixture.twiceEnded := by
      rw [armoured, fromUtf8_utf8, Option.filter_some]
      exact if_pos (by decide +kernel)
    rw [reached, harmour]
    decide +kernel
  exact absurd (h _ _ block hreached) (by decide)

end Pem
