import Millpond.Arrow.Uuid
import Mathlib.Tactic

set_option autoImplicit false

/-! # The grammar of UUIDs

What `uuid_bytes` accepts, over all values: 32 hex digits, bare or in groups, and one of three
wrappings around them. The checks of the source are a test of four positions, two lengths and a
decoder that skips spaces; that they come to this grammar is shown here. -/

namespace Millpond.Arrow

/-! ## Any value -/

/-- A value, as far as `uuid_bytes` looks at it. -/
inductive PyObject where
  | str (text : String)
  | other (typeName : String)
deriving DecidableEq, Repr

/-- The two texts of its `ValueError`. -/
inductive UuidError where
  /-- `not a UUID string: …`, with the name of the type. -/
  | notString (typeName : String)
  /-- `not a UUID: …`, with the value. -/
  | notUuid (value : String)
deriving DecidableEq, Repr

/-- `uuid_bytes`. -/
def uuidBytesOf : PyObject → Except UuidError Uuid
  | .other typeName => .error (.notString typeName)
  | .str text =>
      match uuidBytes text with
      | some uuid => .ok uuid
      | none => .error (.notUuid text)

theorem uuidBytesOf_eq_ok {value : PyObject} {uuid : Uuid} :
    uuidBytesOf value = .ok uuid ↔ ∃ text, value = .str text ∧ uuidBytes text = some uuid := by
  cases value with
  | other typeName => simp [uuidBytesOf]
  | str text => cases h : uuidBytes text <;> simp [uuidBytesOf, h]

/-! ## The grammar -/

/-- The ASCII hex digits. -/
def hexDigits : List Char := "0123456789abcdefABCDEF".toList

inductive Form where
  | canonical
  | plain
deriving DecidableEq, Repr

def Form.spell : Form → List Char → List Char
  | .canonical, digits => hyphenated digits
  | .plain, digits => digits

inductive Wrapping where
  | bare
  | braces
  | urn
deriving DecidableEq, Repr

def Wrapping.wrap : Wrapping → List Char → List Char
  | .bare, text => text
  | .braces, text => '\x7b' :: text ++ ['\x7d']
  | .urn, text => urnPrefix ++ text

/-- A rendering of 16 bytes. -/
structure Rendering where
  digits : List Char
  form : Form
  wrapping : Wrapping
  length_digits : digits.length = 32
  hex : ∀ c ∈ digits, c ∈ hexDigits

/-- The text that renders. -/
def Rendering.text (r : Rendering) : String :=
  String.ofList (r.wrapping.wrap (r.form.spell r.digits))

/-- The bytes its digits stand for, in any case. -/
def Rendering.Of (r : Rendering) (uuid : Uuid) : Prop :=
  r.digits.map Char.toLower = hexed uuid.raw

/-- The canonical form, in lower case. -/
def Rendering.canonical (r : Rendering) : String :=
  String.ofList (hyphenated (r.digits.map Char.toLower))

/-! ## Digits -/

/-- The one table of this development: every digit with its value. -/
theorem hexValue_of_mem {c : Char} (h : c ∈ hexDigits) :
    ∃ n < 16, hexValue c = some n ∧ c.toLower = hexDigit n ∧ isSpace c = false := by
  have hall : hexDigits.all (fun c => (List.range 16).any fun n =>
      decide (hexValue c = some n ∧ c.toLower = hexDigit n ∧ isSpace c = false)) = true := by decide
  obtain ⟨n, hn, hrest⟩ := List.any_eq_true.1 (List.all_eq_true.1 hall c h)
  exact ⟨n, List.mem_range.1 hn, of_decide_eq_true hrest⟩

theorem mem_of_hexValue {c : Char} {n : ℕ} (h : hexValue c = some n) : c ∈ hexDigits := by
  have hall : ∀ k < 103, (hexValue (Char.ofNat k)).isSome = true → Char.ofNat k ∈ hexDigits := by
    decide
  have hlt : c.toNat < 103 := by
    unfold hexValue at h
    split_ifs at h <;> omega
  have hc := hall c.toNat hlt
  rw [Char.ofNat_toNat] at hc
  exact hc (by rw [h]; rfl)

theorem fromHex_cons {c d : Char} (hc : c ∈ hexDigits) (hd : d ∈ hexDigits) (rest : List Char) :
    ∃ b : UInt8, fromHex (c :: d :: rest) = (fromHex rest).map (b :: ·) ∧
      [c.toLower, d.toLower] = [hexDigit (b.toNat / 16), hexDigit (b.toNat % 16)] := by
  obtain ⟨high, hhigh, hcv, hcl, hspace⟩ := hexValue_of_mem hc
  obtain ⟨low, hlow, hdv, hdl, -⟩ := hexValue_of_mem hd
  have hnat : (UInt8.ofNat (16 * high + low)).toNat = 16 * high + low := by
    rw [UInt8.toNat_ofNat']
    omega
  refine ⟨UInt8.ofNat (16 * high + low), ?_, ?_⟩
  · rw [fromHex, if_neg (by simp [hspace]), hcv, hdv]
  · have hdiv : (16 * high + low) / 16 = high := by omega
    have hmod : (16 * high + low) % 16 = low := by omega
    rw [hnat, hdiv, hmod, hcl, hdl]

/-- An even number of digits decodes, and to what they spell. -/
theorem fromHex_digits : ∀ (n : ℕ) {digits : List Char}, digits.length = 2 * n →
    (∀ c ∈ digits, c ∈ hexDigits) →
    ∃ raw : Bytes, fromHex digits = some raw ∧ raw.length = n ∧
      digits.map Char.toLower = hexed raw
  | 0, digits, hlength, _ => by
      obtain rfl := List.length_eq_zero_iff.1 hlength
      exact ⟨[], rfl, rfl, rfl⟩
  | n + 1, c :: d :: rest, hlength, hhex => by
      obtain ⟨b, hfrom, hpair⟩ := fromHex_cons (hhex c (by simp)) (hhex d (by simp)) rest
      have hrest : rest.length = 2 * n := by
        simp only [List.length_cons] at hlength
        omega
      obtain ⟨raw, hraw, hlen, hlower⟩ := fromHex_digits n hrest fun x hx => hhex x (by simp [hx])
      refine ⟨b :: raw, by rw [hfrom, hraw]; rfl, by rw [List.length_cons, hlen], ?_⟩
      show [c.toLower, d.toLower] ++ rest.map Char.toLower
        = [hexDigit (b.toNat / 16), hexDigit (b.toNat % 16)] ++ hexed raw
      rw [hpair, hlower]
  | n + 1, [], hlength, _ => by simp at hlength
  | n + 1, [c], hlength, _ => by
      simp only [List.length_cons, List.length_nil] at hlength
      omega

/-- Spaces are paid for with bytes: where none are missing, all is digits. -/
theorem fromHex_length {text : List Char} {raw : Bytes} (h : fromHex text = some raw) :
    2 * raw.length ≤ text.length ∧
      (text.length = 2 * raw.length → ∀ c ∈ text, c ∈ hexDigits) := by
  fun_induction fromHex text generalizing raw with
  | case1 =>
      cases h
      simp
  | case2 c hspace =>
      cases h
      simp
  | case3 => cases h
  | case4 c d rest hspace ih =>
      obtain ⟨hle, -⟩ := ih h
      simp only [List.length_cons] at hle ⊢
      exact ⟨by omega, fun heq => by omega⟩
  | case5 c d rest hspace high low hlow hhigh ih =>
      obtain ⟨tail, htail, rfl⟩ := Option.map_eq_some_iff.1 h
      obtain ⟨hle, hall⟩ := ih htail
      simp only [List.length_cons]
      refine ⟨by omega, fun heq x hx => ?_⟩
      rcases List.mem_cons.1 hx with rfl | hx
      · exact mem_of_hexValue hhigh
      rcases List.mem_cons.1 hx with rfl | hx
      · exact mem_of_hexValue hlow
      · exact hall (by omega) x hx
  | case6 => cases h

/-! ## Groups -/

theorem dash_notMem {digits : List Char} (h : ∀ c ∈ digits, c ∈ hexDigits) : '-' ∉ digits :=
  fun hdash => absurd (h _ hdash) (by decide)

theorem length_hyphenated {digits : List Char} (h : digits.length = 32) :
    (hyphenated digits).length = 36 := by
  simp [hyphenated, h]

theorem unhyphened_spell {r : Rendering} : unhyphened (r.form.spell r.digits) = some r.digits := by
  have hlength := r.length_digits
  have hfilter := filter_hyphenated (dash_notMem r.hex)
  cases r.form with
  | plain =>
      show unhyphened r.digits = _
      rw [unhyphened, if_neg (by omega)]
  | canonical =>
      show unhyphened (hyphenated r.digits) = _
      have hdashes : (hyphenated r.digits)[8]? = some '-' ∧ (hyphenated r.digits)[13]? = some '-' ∧
          (hyphenated r.digits)[18]? = some '-' ∧ (hyphenated r.digits)[23]? = some '-' := by
        simp [hyphenated, hlength]
      rw [unhyphened, if_pos (length_hyphenated hlength), if_pos hdashes, hfilter]

theorem cut_at {text : List Char} {n : ℕ} {c : Char} (h : text[n]? = some c) :
    text = text.take n ++ c :: text.drop (n + 1) := by
  obtain ⟨hlt, rfl⟩ := List.getElem?_eq_some_iff.1 h
  rw [← List.drop_eq_getElem_cons hlt, List.take_append_drop]

theorem hyphenated_append {a b c d e : List Char} (ha : a.length = 8) (hb : b.length = 4)
    (hc : c.length = 4) (hd : d.length = 4) :
    hyphenated (a ++ b ++ c ++ d ++ e)
      = a ++ '-' :: (b ++ '-' :: (c ++ '-' :: (d ++ '-' :: e))) := by
  have hat : ∀ (front rest : List Char) (n : ℕ), front.length = n →
      (front ++ rest).drop n = rest ∧ (front ++ rest).take n = front :=
    fun front rest n hn => ⟨List.drop_left' hn, List.take_left' hn⟩
  have h8 := hat a (b ++ c ++ d ++ e) 8 ha
  have h12 := hat (a ++ b) (c ++ d ++ e) 12 (by rw [List.length_append, ha, hb])
  have h16 := hat (a ++ b ++ c) (d ++ e) 16 (by rw [List.length_append, List.length_append, ha, hb, hc])
  have h20 := hat (a ++ b ++ c ++ d) e 20 (by simp only [List.length_append, ha, hb, hc, hd])
  simp only [List.append_assoc] at h8 h12 h16 h20 ⊢
  unfold hyphenated
  rw [h8.1, h8.2, h12.1, h16.1, h20.1, List.take_left' hb, List.take_left' hc, List.take_left' hd]
  simp only [List.append_assoc, List.cons_append]

/-- Four hyphens are taken out, so there is none within a group. -/
theorem eq_spell_of_unhyphened {text digits : List Char} (h : unhyphened text = some digits)
    (hlength : digits.length = 32) : ∃ form : Form, text = form.spell digits := by
  unfold unhyphened at h
  split_ifs at h with h36 hdashes
  · obtain ⟨h8, h13, h18, h23⟩ := hdashes
    obtain rfl := Option.some.inj h
    have hcut13 : (text.drop 9)[4]? = some '-' := by rw [List.getElem?_drop]; exact h13
    have hcut18 : (text.drop 14)[4]? = some '-' := by rw [List.getElem?_drop]; exact h18
    have hcut23 : (text.drop 19)[4]? = some '-' := by rw [List.getElem?_drop]; exact h23
    have hnine := cut_at hcut13
    have hfourteen := cut_at hcut18
    have hnineteen := cut_at hcut23
    rw [List.drop_drop] at hnine hfourteen hnineteen
    have htext : text = text.take 8 ++ '-' :: ((text.drop 9).take 4 ++ '-' ::
        ((text.drop 14).take 4 ++ '-' :: ((text.drop 19).take 4 ++ '-' :: text.drop 24))) := by
      rw [← hnineteen, ← hfourteen, ← hnine]
      exact cut_at h8
    have ha : (text.take 8).length = 8 := by rw [List.length_take]; omega
    have hb : ((text.drop 9).take 4).length = 4 := by rw [List.length_take, List.length_drop]; omega
    have hc : ((text.drop 14).take 4).length = 4 := by rw [List.length_take, List.length_drop]; omega
    have hd : ((text.drop 19).take 4).length = 4 := by rw [List.length_take, List.length_drop]; omega
    have he : (text.drop 24).length = 12 := by rw [List.length_drop]; omega
    generalize text.take 8 = a at htext ha
    generalize (text.drop 9).take 4 = b at htext hb
    generalize (text.drop 14).take 4 = c at htext hc
    generalize (text.drop 19).take 4 = d at htext hd
    generalize text.drop 24 = e at htext he
    have hdash : ∀ rest : List Char, ('-' :: rest).filter (· ≠ '-') = rest.filter (· ≠ '-') :=
      fun rest => by simp
    have hfilter : text.filter (· ≠ '-')
        = a.filter (· ≠ '-') ++ (b.filter (· ≠ '-') ++ (c.filter (· ≠ '-') ++
          (d.filter (· ≠ '-') ++ e.filter (· ≠ '-')))) := by
      rw [htext]
      simp only [List.filter_append, hdash]
    have hle := fun part : List Char => List.length_filter_le (· ≠ '-') part
    have hsum := hlength
    rw [hfilter] at hsum
    simp only [List.length_append] at hsum
    -- The five groups have 32 characters, and so have they without hyphens.
    have hfull : ∀ part : List Char, (part.filter (· ≠ '-')).length = part.length →
        part.filter (· ≠ '-') = part :=
      fun part h => List.filter_eq_self.2 (List.length_filter_eq_length_iff.1 h)
    refine ⟨.canonical, ?_⟩
    have hla := hle a
    have hlb := hle b
    have hlc := hle c
    have hld := hle d
    have hl_e := hle e
    show text = hyphenated (text.filter (· ≠ '-'))
    rw [hfilter, hfull a (by omega), hfull b (by omega), hfull c (by omega), hfull d (by omega),
      hfull e (by omega), htext]
    have happend := hyphenated_append (e := e) ha hb hc hd
    simp only [List.append_assoc] at happend
    exact happend.symm
  · exact ⟨.plain, Option.some.inj h⟩

/-! ## Wrappings -/

theorem eq_wrap_unwrapped (text : List Char) :
    ∃ wrapping : Wrapping, text = wrapping.wrap (unwrapped text) := by
  unfold unwrapped
  split_ifs with hurn hbraces
  · refine ⟨.urn, ?_⟩
    obtain ⟨rest, rfl⟩ := List.isPrefixOf_iff_prefix.1 hurn
    rw [List.drop_left]
    rfl
  · obtain ⟨hlength, hhead, hlast⟩ := hbraces
    refine ⟨.braces, ?_⟩
    obtain ⟨rest, rfl⟩ : ∃ rest, text = '\x7b' :: rest := by
      cases text with
      | nil => simp at hlength
      | cons c rest => exact ⟨rest, by rw [Option.some.inj hhead]⟩
    have hne : rest ≠ [] := by
      rintro rfl
      simp at hlength
    have hend : rest.getLast? = some '\x7d' := by
      rwa [List.getLast?_cons_of_ne_nil hne] at hlast
    show '\x7b' :: rest = '\x7b' :: (rest.dropLast ++ ['\x7d'])
    rw [List.dropLast_append_getLast? _ hend]
  · exact ⟨.bare, rfl⟩

theorem head_spell {r : Rendering} :
    ∃ c rest, r.form.spell r.digits = c :: rest ∧ c ∈ hexDigits := by
  have hlength := r.length_digits
  obtain ⟨c, rest, heq⟩ := List.exists_cons_of_length_pos (l := r.digits) (by omega)
  have hc := r.hex c (heq ▸ List.mem_cons_self)
  cases r.form with
  | plain => exact ⟨c, rest, heq, hc⟩
  | canonical => exact ⟨c, _, by rw [heq]; rfl, hc⟩

theorem unwrapped_wrap {r : Rendering} :
    unwrapped (r.wrapping.wrap (r.form.spell r.digits)) = r.form.spell r.digits := by
  obtain ⟨c, rest, heq, hc⟩ := head_spell (r := r)
  rw [heq]
  have hurnText : urnPrefix = 'u' :: "rn:uuid:".toList := by decide
  cases r.wrapping with
  | bare =>
      have hu : c ≠ 'u' := by
        rintro rfl
        exact absurd hc (by decide)
      have hbrace : c ≠ '\x7b' := by
        rintro rfl
        exact absurd hc (by decide)
      have hurn : urnPrefix.isPrefixOf (c :: rest) = false := by
        rw [hurnText]
        simp [List.isPrefixOf, hu.symm]
      show unwrapped (c :: rest) = c :: rest
      unfold unwrapped
      rw [if_neg (by rw [hurn]; decide), if_neg (by simp [hbrace])]
  | braces =>
      have hurn : urnPrefix.isPrefixOf ('\x7b' :: (c :: rest ++ ['\x7d'])) = false := by
        rw [hurnText]
        simp [List.isPrefixOf]
      show unwrapped ('\x7b' :: (c :: rest ++ ['\x7d'])) = c :: rest
      unfold unwrapped
      have hlast : ('\x7b' :: (c :: rest ++ ['\x7d'])).getLast? = some '\x7d' := by
        rw [← List.cons_append, List.getLast?_concat]
      rw [if_neg (by rw [hurn]; decide), if_pos ⟨by simp, rfl, hlast⟩]
      show (c :: rest ++ ['\x7d']).dropLast = _
      rw [List.dropLast_concat]
  | urn =>
      show unwrapped (urnPrefix ++ (c :: rest)) = c :: rest
      unfold unwrapped
      rw [if_pos (List.isPrefixOf_iff_prefix.2 (List.prefix_append _ _)), List.drop_left]

/-! ## The codec -/

/-- A rendering is read as the bytes its digits stand for. -/
theorem uuidBytes_text (r : Rendering) : ∃ uuid, uuidBytes r.text = some uuid ∧ r.Of uuid := by
  obtain ⟨raw, hraw, hlength, hlower⟩ := fromHex_digits 16 r.length_digits r.hex
  refine ⟨⟨raw, hlength⟩, ?_, hlower⟩
  unfold uuidBytes Rendering.text
  rw [String.toList_ofList, unwrapped_wrap, unhyphened_spell]
  simp only [r.length_digits, ne_eq, not_true_eq_false, if_false, hraw, hlength, dif_pos]

theorem Rendering.Of.unique {r : Rendering} {a b : Uuid} (ha : r.Of a) (hb : r.Of b) : a = b := by
  have hsome := fromHex_hexed a.raw
  rw [← ha, hb, fromHex_hexed] at hsome
  cases a
  cases b
  cases hsome
  rfl

theorem rendering_of_uuidBytes {value : String} {uuid : Uuid} (h : uuidBytes value = some uuid) :
    ∃ r : Rendering, value = r.text := by
  unfold uuidBytes at h
  obtain ⟨wrapping, hwrap⟩ := eq_wrap_unwrapped value.toList
  cases htext : unhyphened (unwrapped value.toList) with
  | none => simp [htext] at h
  | some digits =>
      simp only [htext] at h
      split_ifs at h with hlength
      cases hraw : fromHex digits with
      | none => simp [hraw] at h
      | some raw =>
          simp only [hraw] at h
          split_ifs at h with hsixteen
          have h32 : digits.length = 32 := by simpa using hlength
          obtain ⟨form, hform⟩ := eq_spell_of_unhyphened htext h32
          have hhex := (fromHex_length hraw).2 (by omega)
          refine ⟨⟨digits, form, wrapping, h32, hhex⟩, ?_⟩
          show value = String.ofList (wrapping.wrap (form.spell digits))
          rw [← hform, ← hwrap, String.ofList_toList]

theorem mem_hexed {raw : Bytes} {c : Char} (h : c ∈ hexed raw) : c ∈ hexDigits ∧ c.toLower = c := by
  have hall : ∀ n : Fin 16, hexDigit n ∈ hexDigits ∧ (hexDigit n).toLower = hexDigit n := by decide
  obtain ⟨b, -, hb⟩ := List.mem_flatMap.1 h
  have hlt := b.toNat_lt
  simp only [List.mem_cons, List.not_mem_nil, or_false] at hb
  rcases hb with rfl | rfl
  · exact hall ⟨b.toNat / 16, by omega⟩
  · exact hall ⟨b.toNat % 16, Nat.mod_lt _ (by decide)⟩

/-- The rendering that `uuid_text` writes. -/
def canonicalRendering (uuid : Uuid) : Rendering where
  digits := hexed uuid.raw
  form := .canonical
  wrapping := .bare
  length_digits := by rw [length_hexed, uuid.sixteen]
  hex := fun _ hc => (mem_hexed hc).1

theorem canonicalRendering_of (uuid : Uuid) : (canonicalRendering uuid).Of uuid :=
  (List.map_congr_left fun _ hc => (mem_hexed hc).2).trans (List.map_id _)

theorem uuidText_of {r : Rendering} {uuid : Uuid} (h : r.Of uuid) : uuidText uuid = r.canonical := by
  unfold Rendering.canonical
  rw [h]
  rfl

/-- What `uuid_bytes` accepts is the grammar, with the bytes of each rendering; what is left gets a
    `ValueError`; and `uuid_text` is its inverse on canonical renderings. -/
theorem uuidBytesOf_grammar :
    (∀ value uuid, uuidBytesOf value = .ok uuid ↔
      ∃ r : Rendering, value = .str r.text ∧ r.Of uuid) ∧
    (∀ value, (∃ e, uuidBytesOf value = .error e) ↔ ¬ ∃ r : Rendering, value = .str r.text) ∧
    (∀ uuid, uuidBytesOf (.str (uuidText uuid)) = .ok uuid) ∧
    (∀ (r : Rendering) uuid, uuidBytesOf (.str r.text) = .ok uuid → uuidText uuid = r.canonical) := by
  have haccepts : ∀ value uuid, uuidBytesOf value = .ok uuid ↔
      ∃ r : Rendering, value = .str r.text ∧ r.Of uuid := by
    intro value uuid
    rw [uuidBytesOf_eq_ok]
    constructor
    · rintro ⟨text, rfl, htext⟩
      obtain ⟨r, rfl⟩ := rendering_of_uuidBytes htext
      obtain ⟨uuid', huuid', hof⟩ := uuidBytes_text r
      obtain rfl := Option.some.inj (huuid'.symm.trans htext)
      exact ⟨r, rfl, hof⟩
    · rintro ⟨r, rfl, hof⟩
      obtain ⟨uuid', huuid', hof'⟩ := uuidBytes_text r
      exact ⟨r.text, rfl, by rw [huuid', hof'.unique hof]⟩
  refine ⟨haccepts, fun value => ?_, fun uuid => ?_, fun r uuid h => ?_⟩
  · constructor
    · rintro ⟨e, he⟩ ⟨r, rfl⟩
      obtain ⟨uuid, -, hof⟩ := uuidBytes_text r
      rw [(haccepts _ _).2 ⟨r, rfl, hof⟩] at he
      cases he
    · intro hnone
      cases hresult : uuidBytesOf value with
      | error e => exact ⟨e, rfl⟩
      | ok uuid =>
          obtain ⟨r, hr, -⟩ := (haccepts _ _).1 hresult
          exact absurd ⟨r, hr⟩ hnone
  · exact (haccepts _ _).2 ⟨canonicalRendering uuid, rfl, canonicalRendering_of uuid⟩
  · obtain ⟨r', hr', hof'⟩ := (haccepts _ _).1 h
    obtain ⟨uuid', huuid', hof⟩ := uuidBytes_text r
    obtain ⟨text, htext, hsome⟩ := uuidBytesOf_eq_ok.1 h
    cases htext
    obtain rfl := Option.some.inj (huuid'.symm.trans hsome)
    exact uuidText_of hof

end Millpond.Arrow
