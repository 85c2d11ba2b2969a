import GrowlerDB.Core.Doc
import GrowlerDB.Lib.Bytes
import GrowlerDB.Lib.Results

namespace GrowlerDB.Core
open Lib Bytes List

variable {tag b : UInt8}

structure CompositeKey where
  partition : List (String × Value)
  identifier : List (String × Value)
  deriving DecidableEq

def pushBytes (bytes : List UInt8) : List UInt8 := leBytes 4 bytes.length ++ bytes

def pushValue : Value → List UInt8
  | .str s => 1 :: pushBytes (utf8 s)
  | .int i => 2 :: pushBytes (wordBytes (BitVec.ofInt 64 i))
  | .float f => 3 :: pushBytes (wordBytes f.bits)
  | .bool b => 4 :: pushBytes [if b then 1 else 0]
  | .ts t => 5 :: pushBytes (wordBytes (BitVec.ofInt 64 t))
  | .vector v => 6 :: pushBytes (leBytes 4 v.length ++ v.flatMap (fun x => leBytes 4 x.toNat))

def encodeField (role : UInt8) (field : String × Value) : List UInt8 :=
  role :: (pushBytes (utf8 field.1) ++ pushValue field.2)

def CompositeKey.encode (key : CompositeKey) : List UInt8 :=
  key.partition.flatMap (encodeField 0) ++ key.identifier.flatMap (encodeField 1)

inductive KeyDecodeError
  | truncated (pos : Nat)
  | unknownRole (role : UInt8) (pos : Nat)
  | unknownTag (tag : UInt8) (pos : Nat)
  | badWidth (tag : UInt8) (expected got : Nat)
  | badName (pos : Nat)
  | badStr (pos : Nat)
  | badBool (byte : UInt8) (pos : Nat)
  | roleOrder (pos : Nat)

inductive KeyFault
  | invalid (e : KeyDecodeError)
  | panics

section

variable (bytes : List UInt8)

def take (pos n : Nat) : Except KeyFault ((Nat × Nat) × Nat) :=
  if pos + n > bytes.length then .error (.invalid (.truncated pos)) else .ok ((pos, pos + n), pos + n)

def bytesAt (range : Nat × Nat) : Except KeyFault (List UInt8) :=
  if range.1 ≤ range.2 ∧ range.2 ≤ bytes.length then .ok (slice bytes range.1 range.2)
  else .error .panics

def asArray (n : Nat) (bs : List UInt8) : Except KeyFault (List UInt8) :=
  if bs.length = n then .ok bs else .error .panics

def firstByte (bs : List UInt8) : Except KeyFault UInt8 :=
  match bs with
  | b :: _ => .ok b
  | [] => .error .panics

def takeLenPrefixed (pos : Nat) : Except KeyFault ((Nat × Nat) × Nat) := do
  let (r, pos) ← take bytes pos 4
  let len ← asArray 4 (← bytesAt bytes r)
  take bytes pos (ofLe len)

def takeByte (pos : Nat) : Except KeyFault (UInt8 × Nat) := do
  let (r, pos) ← take bytes pos 1
  let b ← firstByte (← bytesAt bytes r)
  .ok (b, pos)

def takeBytes (pos : Nat) : Except KeyFault (List UInt8 × Nat) := do
  let (r, pos) ← takeLenPrefixed bytes pos
  let bs ← bytesAt bytes r
  .ok (bs, pos)

def checkRole (role : UInt8) (roleAt : Nat) (seenIdentifier : Bool) : Except KeyFault Unit :=
  if role = 0 then
    if seenIdentifier then .error (.invalid (.roleOrder roleAt)) else .ok ()
  else if role = 1 then .ok ()
  else .error (.invalid (.unknownRole role roleAt))

def fixed (tag : UInt8) (expected : Nat) (val : List UInt8) : Except KeyFault (List UInt8) :=
  if val.length ≠ expected then .error (.invalid (.badWidth tag expected val.length)) else .ok val

def word (tag : UInt8) (val : List UInt8) : Except KeyFault (BitVec 64) := do
  let bs ← asArray 8 (← fixed tag 8 val)
  .ok (ofWordBytes bs)

def decodeValue (tag : UInt8) (tagAt valAt : Nat) (val : List UInt8) : Except KeyFault Value :=
  if tag = 1 then
    match ofUtf8 val with
    | some s => .ok (.str s)
    | none => .error (.invalid (.badStr valAt))
  else if tag = 2 then do
    let w ← word tag val
    .ok (.int w.toInt)
  else if tag = 3 then do
    let w ← word tag val
    .ok (.float ⟨w⟩)
  else if tag = 4 then do
    let byte ← firstByte (← fixed tag 1 val)
    if byte = 0 then .ok (.bool false)
    else if byte = 1 then .ok (.bool true)
    else .error (.invalid (.badBool byte valAt))
  else if tag = 5 then do
    let w ← word tag val
    .ok (.ts w.toInt)
  else .error (.invalid (.unknownTag tag tagAt))

def decodeField (pos : Nat) (seenIdentifier : Bool) :
    Except KeyFault (UInt8 × (String × Value) × Nat) := do
  let (role, namePos) ← takeByte bytes pos
  checkRole role pos seenIdentifier
  let (nameBytes, tagPos) ← takeBytes bytes namePos
  match ofUtf8 nameBytes with
  | none => .error (.invalid (.badName namePos))
  | some name => do
    let (tag, valPos) ← takeByte bytes tagPos
    let (val, stop) ← takeBytes bytes valPos
    let value ← decodeValue tag tagPos valPos val
    .ok (role, (name, value), stop)

end

namespace Value

/-- The kinds a key is decoded to, in the ranges of their types and the length of a text in 32 bits. -/
def Encodable : Value → Prop
  | .str s => (utf8 s).length < 2 ^ 32
  | .int i => InI64 i
  | .float _ => True
  | .bool _ => True
  | .ts t => InI64 t
  | .vector _ => False

instance : DecidablePred Encodable := fun v => by
  cases v <;> unfold Encodable <;> infer_instance

end Value

def FieldEncodable (field : String × Value) : Prop := (utf8 field.1).length < 2 ^ 32 ∧ field.2.Encodable

instance : DecidablePred FieldEncodable := fun _ => inferInstanceAs (Decidable (_ ∧ _))

section

variable {bytes : List UInt8} {pos stop n : Nat}

lemma take_ok (h : take bytes pos n = .ok (r, stop)) :
    ∃ x, bytesAt bytes r = .ok x ∧ Span bytes pos stop x ∧ x.length = n := by
  unfold take at h
  split at h
  · cases h
  · rename_i hle
    cases h
    have hspan := span_slice (Nat.le_add_right pos n) (Nat.le_of_not_lt hle)
    refine ⟨slice bytes pos (pos + n), ?_, hspan, ?_⟩
    · exact if_pos ⟨Nat.le_add_right pos n, Nat.le_of_not_lt hle⟩
    · have := hspan.stop_eq
      omega

lemma take_of_span (h : Span bytes pos stop x) :
    ∃ r, take bytes pos x.length = .ok (r, stop) ∧ bytesAt bytes r = .ok x := by
  refine ⟨(pos, stop), ?_, ?_⟩
  · rw [take, ← h.stop_eq, if_neg (Nat.not_lt_of_le h.bound)]
  · rw [bytesAt, if_pos ⟨h.le, h.bound⟩, h.slice_eq]

lemma takeByte_ok (h : takeByte bytes pos = .ok (b, stop)) : Span bytes pos stop [b] := by
  obtain ⟨⟨r, stop'⟩, htake, hread⟩ := bind_ok h
  obtain ⟨x, hat, hspan, hlen⟩ := take_ok htake
  obtain ⟨c, rfl⟩ := length_eq_one_iff.mp hlen
  simp only [hat, firstByte, bind, Except.bind, Except.ok.injEq, Prod.mk.injEq] at hread
  obtain ⟨rfl, rfl⟩ := hread
  exact hspan

lemma takeByte_of_span (h : Span bytes pos stop [b]) : takeByte bytes pos = .ok (b, stop) := by
  obtain ⟨r, htake, hat⟩ := take_of_span h
  rw [length_singleton] at htake
  simp only [takeByte, htake, hat, firstByte, bind, Except.bind]

lemma takeBytes_ok (h : takeBytes bytes pos = .ok (x, stop)) :
    Span bytes pos stop (pushBytes x) ∧ x.length < 2 ^ 32 := by
  obtain ⟨⟨r, stop'⟩, hprefixed, hread⟩ := bind_ok h
  obtain ⟨⟨r', mid⟩, htake, hrest⟩ := bind_ok hprefixed
  obtain ⟨len, hat, hlen, hfour⟩ := take_ok htake
  simp only [hat, asArray, hfour, if_true, bind, Except.bind] at hrest
  obtain ⟨y, hy, hspan, hylen⟩ := take_ok hrest
  simp only [hy, bind, Except.bind, Except.ok.injEq, Prod.mk.injEq] at hread
  obtain ⟨rfl, rfl⟩ := hread
  have hle : leBytes 4 y.length = len := by rw [hylen, ← hfour, leBytes_ofLe]
  refine ⟨?_, ?_⟩
  · rw [pushBytes, hle]
    exact hlen.append hspan
  · have := ofLe_lt len
    rw [hfour] at this
    omega

lemma takeBytes_of_span (h : Span bytes pos stop (pushBytes x))
    (hx : x.length < 2 ^ 32) : takeBytes bytes pos = .ok (x, stop) := by
  obtain ⟨hlen, hspan⟩ := h.split
  obtain ⟨r, htake, hat⟩ := take_of_span hlen
  obtain ⟨r', htake', hat'⟩ := take_of_span hspan
  rw [length_leBytes] at htake htake'
  have hword : x.length < 256 ^ 4 := hx
  simp only [takeBytes, takeLenPrefixed, htake, bind, Except.bind, hat, asArray, length_leBytes, if_true,
    ofLe_leBytes hword, htake', hat']

lemma firstByte_ok (hx : x.length = 1) (h : firstByte x = .ok b) : x = [b] := by
  obtain ⟨c, rfl⟩ := length_eq_one_iff.mp hx
  cases h
  rfl

lemma fixed_ok (h : fixed tag n val = .ok x) : x = val ∧ val.length = n := by
  unfold fixed at h
  split at h
  · cases h
  · rename_i hlen
    cases h
    exact ⟨rfl, not_not.mp hlen⟩

lemma fixed_of_length (h : val.length = n) : fixed tag n val = .ok val :=
  if_neg (not_not.mpr h)

lemma word_ok (h : word tag val = .ok w) : val = wordBytes w := by
  obtain ⟨x, hf, hx⟩ := bind_ok h
  obtain ⟨rfl, hlen⟩ := fixed_ok hf
  simp only [asArray, hlen, if_true, bind, Except.bind, Except.ok.injEq] at hx
  rw [← hx, wordBytes_ofWordBytes hlen]

lemma word_wordBytes (tag : UInt8) (w : BitVec 64) : word tag (wordBytes w) = .ok w := by
  simp only [word, fixed_of_length (length_wordBytes w), bind, Except.bind, asArray, length_wordBytes,
    if_true, ofWordBytes_wordBytes]

lemma inI64_toInt (x : BitVec 64) : InI64 x.toInt := ⟨BitVec.le_toInt x, BitVec.toInt_lt⟩

lemma ofInt_toInt (x : BitVec 64) : BitVec.ofInt 64 x.toInt = x := BitVec.ofInt_toInt

lemma toInt_ofInt (h : InI64 i) : (BitVec.ofInt 64 i).toInt = i := by
  obtain ⟨hl, hu⟩ := h
  rw [BitVec.toInt_ofInt]
  exact Int.bmod_eq_of_le (by simpa using hl) (by simpa using hu)

lemma decodeValue_ok (h : decodeValue tag tagAt valAt val = .ok v) (hval : val.length < 2 ^ 32) :
    pushValue v = tag :: pushBytes val ∧ v.Encodable := by
  unfold decodeValue at h
  split at h
  case isTrue htag =>
    subst htag
    split at h
    · rename_i s hs
      cases h
      rw [pushValue, Value.Encodable, utf8_of_ofUtf8 hs]
      exact ⟨rfl, hval⟩
    · cases h
  case isFalse =>
  split at h
  case isTrue htag =>
    obtain ⟨w, hw, h⟩ := bind_ok h
    cases h
    subst htag
    rw [pushValue, ofInt_toInt, word_ok hw]
    exact ⟨rfl, inI64_toInt w⟩
  case isFalse =>
  split at h
  case isTrue htag =>
    obtain ⟨w, hw, h⟩ := bind_ok h
    cases h
    subst htag
    rw [pushValue, word_ok hw]
    exact ⟨rfl, trivial⟩
  case isFalse =>
  split at h
  case isTrue htag =>
    subst htag
    obtain ⟨x, hf, hx⟩ := bind_ok h
    obtain ⟨b, hb, hbool⟩ := bind_ok hx
    obtain ⟨rfl, hlen⟩ := fixed_ok hf
    obtain rfl := firstByte_ok hlen hb
    split at hbool
    · rename_i hzero
      cases hbool
      exact ⟨by rw [hzero]; rfl, trivial⟩
    · split at hbool
      · rename_i hone
        cases hbool
        exact ⟨by rw [hone]; rfl, trivial⟩
      · cases hbool
  case isFalse =>
  split at h
  case isTrue htag =>
    obtain ⟨w, hw, h⟩ := bind_ok h
    cases h
    subst htag
    rw [pushValue, ofInt_toInt, word_ok hw]
    exact ⟨rfl, inI64_toInt w⟩
  case isFalse => cases h

lemma decodeValue_pushValue (h : v.Encodable) : ∃ tag val, pushValue v = tag :: pushBytes val ∧
    val.length < 2 ^ 32 ∧ ∀ tagAt valAt, decodeValue tag tagAt valAt val = .ok v := by
  cases v with
  | str s => exact ⟨1, utf8 s, rfl, h, fun _ _ => by simp [decodeValue, ofUtf8_utf8]⟩
  | int i =>
    refine ⟨2, _, rfl, by rw [length_wordBytes]; decide, fun _ _ => ?_⟩
    simp [decodeValue, word_wordBytes, bind, Except.bind, toInt_ofInt h]
  | float f =>
    refine ⟨3, _, rfl, by rw [length_wordBytes]; decide, fun _ _ => ?_⟩
    simp [decodeValue, word_wordBytes, bind, Except.bind]
  | bool b =>
    refine ⟨4, _, rfl, by simp, fun _ _ => ?_⟩
    cases b <;> rfl
  | ts t =>
    refine ⟨5, _, rfl, by rw [length_wordBytes]; decide, fun _ _ => ?_⟩
    simp [decodeValue, word_wordBytes, bind, Except.bind, toInt_ofInt h]
  | vector v => cases h

end

section

variable {bytes : List UInt8} {pos stop : Nat} {role : UInt8} {field : String × Value}

lemma checkRole_ok (h : checkRole role roleAt seen = .ok ()) :
    (role = 0 ∧ seen = false) ∨ role = 1 := by
  unfold checkRole at h
  split at h
  · rename_i hrole
    cases seen with
    | true => cases h
    | false => exact .inl ⟨hrole, rfl⟩
  · split at h
    · rename_i hrole
      exact .inr hrole
    · cases h

lemma decodeField_ok (h : decodeField bytes pos seen = .ok (role, field, stop)) :
    Span bytes pos stop (encodeField role field) ∧ FieldEncodable field ∧
      ((role = 0 ∧ seen = false) ∨ role = 1) := by
  obtain ⟨⟨role', namePos⟩, hrole, h₁⟩ := bind_ok h
  obtain ⟨_, hcheck, h₂⟩ := bind_ok h₁
  obtain ⟨⟨nameBytes, tagPos⟩, hname, h₃⟩ := bind_ok h₂
  obtain ⟨hnameSpan, hnameLen⟩ := takeBytes_ok hname
  simp only at h₃
  split at h₃
  · cases h₃
  · rename_i name hutf
    obtain ⟨⟨tag, valPos⟩, htag, h₄⟩ := bind_ok h₃
    obtain ⟨⟨val, stop'⟩, hval, h₅⟩ := bind_ok h₄
    obtain ⟨value, hvalue, h₆⟩ := bind_ok h₅
    cases h₆
    obtain ⟨hvalSpan, hvalLen⟩ := takeBytes_ok hval
    obtain ⟨hpush, henc⟩ := decodeValue_ok hvalue hvalLen
    have hutf8 := utf8_of_ofUtf8 hutf
    refine ⟨?_, ⟨hutf8 ▸ hnameLen, henc⟩, checkRole_ok hcheck⟩
    rw [encodeField, hpush, hutf8]
    exact (takeByte_ok hrole).append (hnameSpan.append ((takeByte_ok htag).append hvalSpan))

lemma decodeField_of_span (h : Span bytes pos stop (encodeField role field))
    (henc : FieldEncodable field) (hrole : (role = 0 ∧ seen = false) ∨ role = 1) :
    decodeField bytes pos seen = .ok (role, field, stop) := by
  obtain ⟨tag, val, hpush, hval, hdecode⟩ := decodeValue_pushValue henc.2
  have hparts : Span bytes pos stop ([role] ++ (pushBytes (utf8 field.1) ++ ([tag] ++ pushBytes val))) := by
    rwa [encodeField, hpush] at h
  obtain ⟨hr, hrest⟩ := hparts.split
  obtain ⟨hn, hrest'⟩ := hrest.split
  obtain ⟨ht, hv⟩ := hrest'.split
  have hcheck : checkRole role pos seen = .ok () := by rcases hrole with ⟨rfl, rfl⟩ | rfl <;> rfl
  simp only [decodeField, takeByte_of_span hr, hcheck, takeBytes_of_span hn henc.1, ofUtf8_utf8,
    takeByte_of_span ht, takeBytes_of_span hv hval, hdecode, bind, Except.bind]

lemma decodeField_advances (h : decodeField bytes pos seen = .ok (role, field, stop)) :
    pos < stop ∧ stop ≤ bytes.length := by
  obtain ⟨hspan, -, -⟩ := decodeField_ok h
  refine ⟨?_, hspan.bound⟩
  rw [hspan.stop_eq, encodeField, length_cons]
  omega

end

def CompositeKey.push (key : CompositeKey) (role : UInt8) (field : String × Value) : CompositeKey :=
  if role = 0 then { key with partition := key.partition ++ [field] }
  else { key with identifier := key.identifier ++ [field] }

def decodeFrom (bytes : List UInt8) (pos : Nat) (seenIdentifier : Bool) (key : CompositeKey) :
    Except KeyFault CompositeKey :=
  if pos < bytes.length then
    match h : decodeField bytes pos seenIdentifier with
    | .error e => .error e
    | .ok (role, field, stop) =>
      have := decodeField_advances h
      decodeFrom bytes stop (seenIdentifier || role == 1) (key.push role field)
  else .ok key
termination_by bytes.length - pos

def CompositeKey.decode (bytes : List UInt8) : Except KeyFault CompositeKey :=
  decodeFrom bytes 0 false ⟨[], []⟩

open CompositeKey Except

variable {seen : Bool}

def CompositeKey.Encodable (key : CompositeKey) : Prop :=
  (∀ f ∈ key.partition, FieldEncodable f) ∧ ∀ f ∈ key.identifier, FieldEncodable f

instance (key : CompositeKey) : Decidable key.Encodable := inferInstanceAs (Decidable (_ ∧ _))

section

def NeverPanics {A : Type} (x : Except KeyFault A) : Prop := x ≠ .error .panics

variable {A B : Type}

lemma NeverPanics.of_ok (h : x = .ok a) : NeverPanics x := by
  rw [h]
  exact fun hx => (nomatch hx)

lemma NeverPanics.invalid (e : KeyDecodeError) : NeverPanics (.error (.invalid e) : Except KeyFault A) :=
  fun h => (nomatch h)

lemma NeverPanics.seq (hx : NeverPanics x)
    (hf : ∀ a, x = .ok a → NeverPanics (f a)) : NeverPanics (x >>= f) := by
  cases x with
  | ok a => exact hf a rfl
  | error e => exact fun h => hx (congrArg error (error.inj h))

variable {bytes : List UInt8} {pos : Nat}

lemma take_safe (n : Nat) : NeverPanics (take bytes pos n) := by
  unfold take
  split
  · exact .invalid _
  · exact .of_ok rfl

lemma bytesAt_safe (h : take bytes pos n = .ok (r, stop)) : NeverPanics (bytesAt bytes r) := by
  obtain ⟨x, hat, -, -⟩ := take_ok h
  exact .of_ok hat

lemma takeByte_safe : NeverPanics (takeByte bytes pos) := by
  refine .seq (take_safe 1) fun ⟨r, stop⟩ htake => .seq (bytesAt_safe htake) fun x hx => ?_
  obtain ⟨y, hat, -, hlen⟩ := take_ok htake
  obtain ⟨b, rfl⟩ := length_eq_one_iff.mp hlen
  cases hx.symm.trans hat
  exact .of_ok rfl

lemma takeBytes_safe : NeverPanics (takeBytes bytes pos) := by
  refine .seq (.seq (take_safe 4) fun ⟨r, mid⟩ htake => .seq (bytesAt_safe htake) fun x hx => ?_)
    fun ⟨r, stop⟩ hread => ?_
  · obtain ⟨y, hat, -, hlen⟩ := take_ok htake
    cases hx.symm.trans hat
    refine .seq (.of_ok (if_pos hlen)) fun _ _ => take_safe _
  · obtain ⟨⟨r', mid⟩, -, hrest⟩ := bind_ok hread
    obtain ⟨_, -, hrest'⟩ := bind_ok hrest
    obtain ⟨_, -, htake⟩ := bind_ok hrest'
    exact .seq (bytesAt_safe htake) fun _ _ => .of_ok rfl

lemma fixed_safe : NeverPanics (fixed tag n val) := by
  unfold fixed
  split
  · exact .invalid _
  · exact .of_ok rfl

lemma word_safe : NeverPanics (word tag val) := by
  refine .seq fixed_safe fun x hx => ?_
  obtain ⟨rfl, hlen⟩ := fixed_ok hx
  exact .seq (.of_ok (if_pos hlen)) fun _ _ => .of_ok rfl

lemma decodeValue_safe : NeverPanics (decodeValue tag tagAt valAt val) := by
  unfold decodeValue
  split
  · split
    · exact .of_ok rfl
    · exact .invalid _
  split
  · exact .seq word_safe fun _ _ => .of_ok rfl
  split
  · exact .seq word_safe fun _ _ => .of_ok rfl
  split
  · refine .seq fixed_safe fun x hx => ?_
    obtain ⟨rfl, hlen⟩ := fixed_ok hx
    obtain ⟨b, rfl⟩ := length_eq_one_iff.mp hlen
    refine .seq (.of_ok rfl) fun c _ => ?_
    split
    · exact .of_ok rfl
    · split
      · exact .of_ok rfl
      · exact .invalid _
  split
  · exact .seq word_safe fun _ _ => .of_ok rfl
  · exact .invalid _

lemma checkRole_safe : NeverPanics (checkRole role pos seen) := by
  unfold checkRole
  split
  · split
    · exact .invalid _
    · exact .of_ok rfl
  · split
    · exact .of_ok rfl
    · exact .invalid _

lemma decodeField_safe : NeverPanics (decodeField bytes pos seen) := by
  refine .seq takeByte_safe fun ⟨role, namePos⟩ _ => .seq checkRole_safe fun _ _ =>
    .seq takeBytes_safe fun ⟨nameBytes, tagPos⟩ _ => ?_
  simp only
  split
  · exact .invalid _
  · exact .seq takeByte_safe fun ⟨tag, valPos⟩ _ => .seq takeBytes_safe fun ⟨val, stop⟩ _ =>
      .seq decodeValue_safe fun _ _ => .of_ok rfl

lemma decodeFrom_safe (seen : Bool) (key : CompositeKey) : NeverPanics (decodeFrom bytes pos seen key) := by
  fun_induction decodeFrom bytes pos seen key with
  | case1 pos seen key hlt e he =>
    have hsafe : NeverPanics (decodeField bytes pos seen) := decodeField_safe
    rw [he] at hsafe
    exact fun h => hsafe (congrArg error (error.inj h))
  | case2 pos seen key hlt role field stop hfield hadv ih => exact ih
  | case3 pos seen key hlt => exact .of_ok rfl

end

section

variable {bytes : List UInt8} {pos : Nat} {key k : CompositeKey}

/-- The fields that are still to come: what they are encoded by, and no partition field behind an
identifier. -/
structure Remaining (bytes : List UInt8) (pos : Nat) (seen : Bool) (fields : CompositeKey) : Prop where
  span : Span bytes pos bytes.length fields.encode
  encodable : fields.Encodable
  ordered : seen = true → fields.partition = []

def CompositeKey.append (key fields : CompositeKey) : CompositeKey :=
  ⟨key.partition ++ fields.partition, key.identifier ++ fields.identifier⟩

lemma encode_cons (f : String × Value) (ps is : List (String × Value)) :
    encode ⟨f :: ps, is⟩ = encodeField 0 f ++ encode ⟨ps, is⟩ := by
  simp [encode]

lemma span_nil {A : Type} (bs : List A) : Span bs bs.length bs.length [] :=
  ⟨rfl, le_refl _, by simp [slice]⟩

lemma decodeFrom_ok (h : decodeFrom bytes pos seen key = .ok k) (hpos : pos ≤ bytes.length) :
    ∃ fields, k = key.append fields ∧ Remaining bytes pos seen fields := by
  fun_induction decodeFrom bytes pos seen key with
  | case1 pos seen key hlt e he => cases h
  | case2 pos seen key hlt role field stop hfield hadv ih =>
    obtain ⟨⟨ps, is⟩, rfl, hspan, henc, hord⟩ := ih h hadv.2
    obtain ⟨hfspan, hfenc, ⟨rfl, rfl⟩ | rfl⟩ := decodeField_ok hfield
    · refine ⟨⟨field :: ps, is⟩, ?_, ?_, ?_, fun h => (nomatch h)⟩
      · simp [append, push]
      · rw [encode_cons]
        exact hfspan.append hspan
      · exact ⟨forall_mem_cons.mpr ⟨hfenc, henc.1⟩, henc.2⟩
    · obtain rfl : ps = [] := hord (by simp)
      refine ⟨⟨[], field :: is⟩, ?_, ?_, ?_, fun _ => rfl⟩
      · simp [append, push]
      · exact hfspan.append hspan
      · exact ⟨by simp, forall_mem_cons.mpr ⟨hfenc, henc.2⟩⟩
  | case3 pos seen key hlt =>
    cases h
    obtain rfl : pos = bytes.length := by omega
    exact ⟨⟨[], []⟩, by simp [append], span_nil bytes, ⟨by simp, by simp⟩, fun _ => rfl⟩

lemma decodeFrom_field (h : decodeField bytes pos seen = .ok (role, field, stop)) :
    decodeFrom bytes pos seen key = decodeFrom bytes stop (seen || role == 1) (key.push role field) := by
  have hadv := decodeField_advances h
  rw [decodeFrom, if_pos (by omega)]
  split
  · rename_i e he
    rw [h] at he
    cases he
  · rename_i he
    rw [h] at he
    cases he
    rfl

lemma decodeFrom_identifiers (henc : ∀ f ∈ is, FieldEncodable f)
    (h : Span bytes pos bytes.length (is.flatMap (encodeField 1))) :
    decodeFrom bytes pos seen key = .ok (key.append ⟨[], is⟩) := by
  induction is generalizing pos seen key with
  | nil =>
    obtain rfl : pos = bytes.length := by simpa using h.stop_eq.symm
    rw [decodeFrom, if_neg (by omega)]
    simp [append]
  | cons f is ih =>
    rw [flatMap_cons] at h
    obtain ⟨hf, hrest⟩ := h.split
    obtain ⟨hfenc, henc⟩ := forall_mem_cons.mp henc
    rw [decodeFrom_field (decodeField_of_span hf hfenc (.inr rfl)), ih henc hrest]
    simp [append, push]

lemma decodeFrom_of_remaining (h : Remaining bytes pos false fields) :
    decodeFrom bytes pos false key = .ok (key.append fields) := by
  obtain ⟨ps, is⟩ := fields
  obtain ⟨hspan, henc, -⟩ := h
  induction ps generalizing pos key with
  | nil => exact decodeFrom_identifiers henc.2 hspan
  | cons f ps ih =>
    obtain ⟨hfenc, hps⟩ := forall_mem_cons.mp henc.1
    rw [encode_cons] at hspan
    obtain ⟨hf, hrest⟩ := hspan.split
    refine (decodeFrom_field (decodeField_of_span hf hfenc (.inl ⟨rfl, rfl⟩))).trans
      ((ih hrest ⟨hps, henc.2⟩).trans ?_)
    simp [append, push]

end

variable {key : CompositeKey}

lemma decode_encode (h : key.Encodable) : decode key.encode = .ok key := by
  have hrem : Remaining key.encode 0 false key := ⟨span_whole _, h, fun h => (nomatch h)⟩
  rw [decode, decodeFrom_of_remaining hrem]
  rfl

lemma encode_of_decode (h : decode bytes = .ok key) : key.Encodable ∧ key.encode = bytes := by
  obtain ⟨fields, rfl, hspan, henc, -⟩ := decodeFrom_ok h (Nat.zero_le _)
  exact ⟨henc, hspan.eq_whole⟩

/-- Decoding undoes encoding, reads inside its bytes only, and accepts nothing but encodings: keys
of the encodable kinds and accepted byte strings are in bijection. -/
theorem key_codec_canonical :
    (∀ key : CompositeKey, key.Encodable → CompositeKey.decode key.encode = .ok key) ∧
    (∀ bytes, NeverPanics (CompositeKey.decode bytes)) ∧
    (∀ bytes key, CompositeKey.decode bytes = .ok key → key.Encodable ∧ key.encode = bytes) ∧
    (∀ key key' : CompositeKey, key.Encodable → key'.Encodable → key.encode = key'.encode → key = key') ∧
    ∀ bytes bytes' key, CompositeKey.decode bytes = .ok key → CompositeKey.decode bytes' = .ok key →
      bytes = bytes' := by
  refine ⟨fun key h => decode_encode h, fun bytes => decodeFrom_safe _ _,
    fun bytes key h => encode_of_decode h, fun key key' hk hk' h => ?_, fun bytes bytes' key h h' => ?_⟩
  · have hd := decode_encode hk
    rw [h, decode_encode hk'] at hd
    exact (Except.ok.inj hd).symm
  · exact (encode_of_decode h).2.symm.trans (encode_of_decode h').2

theorem key_codec_of_every_kind : let key : CompositeKey := ⟨[("day", .ts 1700000000000000), ("eu", .bool true)],
      [("id", .str "é"), ("n", .int (-1)), ("x", .float ⟨0x3FF8000000000000⟩)]⟩
    CompositeKey.decode key.encode = .ok key :=
  key_codec_canonical.1 _ (by decide)

def partitionBytes (partition : List (String × Value)) : List UInt8 := CompositeKey.encode ⟨partition, []⟩

def inScope (partition : List (String × Value)) (key : CompositeKey) : Bool :=
  (partitionBytes partition).isPrefixOf key.encode

lemma decodeFrom_partition
    (henc : ∀ f ∈ fields, FieldEncodable f) (h : Span bytes pos stop (fields.flatMap (encodeField 0))) :
    decodeFrom bytes pos false key = decodeFrom bytes stop false (key.append ⟨fields, []⟩) := by
  induction fields generalizing pos key with
  | nil =>
    obtain rfl : stop = pos := by simpa using h.stop_eq
    simp [append]
  | cons f fields ih =>
    rw [flatMap_cons] at h
    obtain ⟨hf, hrest⟩ := h.split
    obtain ⟨hfenc, henc⟩ := forall_mem_cons.mp henc
    refine (decodeFrom_field (decodeField_of_span hf hfenc (.inl ⟨rfl, rfl⟩))).trans ((ih henc hrest).trans ?_)
    simp [append, push]

lemma inScope_iff (hkey : key.Encodable)
    (hpart : ∀ f ∈ p, FieldEncodable f) : inScope p key ↔ p <+: key.partition := by
  rw [inScope, isPrefixOf_iff_prefix]
  constructor
  · rintro ⟨rest, hrest⟩
    have hspan : Span key.encode 0 (partitionBytes p).length (p.flatMap (encodeField 0)) := by
      have hwhole := span_whole key.encode
      rw [← hrest] at hwhole ⊢
      have hfirst := hwhole.split.1
      rw [Nat.zero_add] at hfirst
      simpa [partitionBytes, CompositeKey.encode] using hfirst
    have hread := decode_encode hkey
    rw [CompositeKey.decode, decodeFrom_partition hpart hspan] at hread
    obtain ⟨fields, rfl, -⟩ := decodeFrom_ok hread hspan.bound
    exact ⟨fields.partition, by simp [CompositeKey.append]⟩
  · rintro ⟨more, hmore⟩
    refine ⟨CompositeKey.encode ⟨more, key.identifier⟩, ?_⟩
    simp [partitionBytes, CompositeKey.encode, ← hmore]

end GrowlerDB.Core
