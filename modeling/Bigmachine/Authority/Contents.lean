import Bigmachine.Authority.Cached
import Bigmachine.Ec2.UserData

/-!
# The contents of an authority

`authority.New` goes through the PEM blocks of its file and keeps the last certificate and the last
key; it encodes the two again, the key in the form that it gives to all keys, and `Contents` joins
them. So whatever else the file held and however the key was written, `Contents` is a normal form:
`New` makes the same authority of it (`contents_round_trip`). That is what the machines of an EC2
system do with the file that the config of an instance ships.

`pem.Decode` is given as a function that finds the first block of its input and the rest after it.
`Lawful` is what is assumed of the packages pem and x509.
-/

namespace Bigmachine.Authority

open Errors

/-- What `New` uses of the packages pem and x509, call by call. -/
structure Packages (C K : Type) where
  decode : Bytes → Option (Block × Bytes)
  shorter : ∀ p b rest, decode p = some (b, rest) → rest.length < p.length
  encode : Block → Except Err Bytes
  parseCertificate : Bytes → Except Err C
  parseKey : Bytes → Except Err K
  marshalKey : K → Bytes

namespace Packages

variable {C K : Type} (x : Packages C K)

/-! ## `New` -/

/-- The switch over the type of a block, on `certBlock` and `keyBlock`. -/
def slot (s : Option Bytes × Option Bytes) (derBlock : Block) : Option Bytes × Option Bytes :=
  if derBlock.type = "CERTIFICATE" then (some derBlock.bytes, s.2)
  else if derBlock.type = "RSA PRIVATE KEY" then (s.1, some derBlock.bytes)
  else s

/-- The loop over the blocks. -/
def scan (s : Option Bytes × Option Bytes) (pemBlock : Bytes) : Option Bytes × Option Bytes :=
  match _ : x.decode pemBlock with
  | none => s
  | some (derBlock, rest) => scan (slot s derBlock) rest
termination_by pemBlock.length
decreasing_by exact x.shorter _ _ _ ‹_›

/-- What `New` does with the bytes that `cached` returns. -/
def new (pemBlock : Bytes) : Except Err (Holder C K) :=
  match x.scan (none, none) pemBlock with
  | (some certBlock, some keyBlock) => do
    let cert ← x.parseCertificate certBlock
    let key ← x.parseKey keyBlock
    let certPEM ← x.encode ⟨"CERTIFICATE", certBlock⟩
    let keyPEM ← x.encode ⟨"RSA PRIVATE KEY", x.marshalKey key⟩
    return { key, cert, certPEM, keyPEM }
  | _ => .error (.text "httpsca: incomplete certificate")

end Packages

def Holder.contents {C K : Type} (ca : Holder C K) : Bytes := ca.certPEM ++ ca.keyPEM

namespace Packages

variable {C K : Type} (x : Packages C K)

/-! ## The blocks of a file -/

/-- All the blocks that `pem.Decode` finds. -/
def blocks (pemBlock : Bytes) : List Block :=
  match _ : x.decode pemBlock with
  | none => []
  | some (derBlock, rest) => derBlock :: blocks rest
termination_by pemBlock.length
decreasing_by exact x.shorter _ _ _ ‹_›

variable {x}

theorem blocks_of_none {p : Bytes} (h : x.decode p = none) : x.blocks p = [] := by
  rw [blocks]
  split
  · rfl
  · simp_all

theorem blocks_of_some {p rest : Bytes} {b : Block} (h : x.decode p = some (b, rest)) :
    x.blocks p = b :: x.blocks rest := by
  rw [blocks]
  split
  · simp_all
  · simp_all

theorem scan_eq_foldl (s : Option Bytes × Option Bytes) (p : Bytes) :
    x.scan s p = (x.blocks p).foldl slot s := by
  fun_induction scan with
  | case1 s p h => rw [blocks_of_none h, List.foldl_nil]
  | case2 s p b rest h ih => rw [blocks_of_some h, List.foldl_cons, ih]

/-! ## The last blocks -/

theorem lastBlock_cons (b : Block) (bs : List Block) (type : String) :
    lastBlock (b :: bs) type =
      (lastBlock bs type).or (if b.type = type then some b.bytes else none) := by
  unfold lastBlock
  rw [List.findRev?]
  cases bs.findRev? fun b => decide (b.type = type) with
  | some b' => rfl
  | none =>
    by_cases hb : b.type = type
    · simp [hb]
    · simp [hb]

/-- The loop keeps the last block of each of the two types. -/
theorem foldl_slot (bs : List Block) (s : Option Bytes × Option Bytes) :
    bs.foldl slot s =
      ((lastBlock bs "CERTIFICATE").or s.1, (lastBlock bs "RSA PRIVATE KEY").or s.2) := by
  induction bs generalizing s with
  | nil => rfl
  | cons b bs ih =>
    rw [List.foldl_cons, ih, lastBlock_cons, lastBlock_cons]
    unfold slot
    split
    · rename_i hcert
      simp [hcert]
    · split
      · simp [*]
      · simp [*]

theorem scan_eq_lastBlock (p : Bytes) : x.scan (none, none) p =
    (lastBlock (x.blocks p) "CERTIFICATE", lastBlock (x.blocks p) "RSA PRIVATE KEY") := by
  rw [scan_eq_foldl, foldl_slot, Option.or_none, Option.or_none]

/-- Of the blocks of the type, the last one has the given contents. -/
def IsLast (bs : List Block) (type : String) (bytes : Bytes) : Prop :=
  ∃ before after, bs = before ++ ⟨type, bytes⟩ :: after ∧ ∀ b ∈ after, b.type ≠ type

theorem isLast_of_lastBlock {bs : List Block} {type : String} {bytes : Bytes}
    (h : lastBlock bs type = some bytes) : IsLast bs type bytes := by
  induction bs with
  | nil => cases h
  | cons b bs ih =>
    rw [lastBlock_cons, Option.or_eq_some_iff] at h
    rcases h with h | ⟨hnone, h⟩
    · obtain ⟨before, after, rfl, hafter⟩ := ih h
      exact ⟨b :: before, after, rfl, hafter⟩
    · split at h
      · rename_i hb
        cases h
        refine ⟨[], bs, by rw [← hb]; rfl, fun c hc heq => ?_⟩
        have hc' : bs.findRev? (fun b => decide (b.type = type)) = none :=
          Option.map_eq_none_iff.mp hnone
        rw [List.findRev?_eq_find?_reverse, List.find?_eq_none] at hc'
        exact hc' c (List.mem_reverse.mpr hc) (decide_eq_true heq)
      · cases h

/-! ## What a successful call returns -/

theorem ok_bind {α β : Type} (v : α) (f : α → Except Err β) : (.ok v >>= f) = f v := rfl

theorem bind_ok {α β : Type} {a : Except Err α} {f : α → Except Err β} {b : β}
    (h : a >>= f = .ok b) : ∃ v, a = .ok v ∧ f v = .ok b := by
  cases a with
  | error e => cases h
  | ok v => exact ⟨v, rfl, h⟩

theorem new_ok_iff {p : Bytes} {ca : Holder C K} : x.new p = .ok ca ↔
    ∃ certBlock keyBlock, lastBlock (x.blocks p) "CERTIFICATE" = some certBlock ∧
      lastBlock (x.blocks p) "RSA PRIVATE KEY" = some keyBlock ∧
      x.parseCertificate certBlock = .ok ca.cert ∧ x.parseKey keyBlock = .ok ca.key ∧
      x.encode ⟨"CERTIFICATE", certBlock⟩ = .ok ca.certPEM ∧
      x.encode ⟨"RSA PRIVATE KEY", x.marshalKey ca.key⟩ = .ok ca.keyPEM := by
  unfold new
  rw [scan_eq_lastBlock]
  constructor
  · intro h
    split at h
    · rename_i certBlock keyBlock heq
      obtain ⟨hcert, hkey⟩ := Prod.mk.inj heq
      obtain ⟨cert, hparse, h⟩ := bind_ok h
      obtain ⟨key, hparse', h⟩ := bind_ok h
      obtain ⟨certPEM, hencode, h⟩ := bind_ok h
      obtain ⟨keyPEM, hencode', h⟩ := bind_ok h
      cases h
      exact ⟨certBlock, keyBlock, hcert, hkey, hparse, hparse', hencode, hencode'⟩
    · cases h
  · rintro ⟨certBlock, keyBlock, hcert, hkey, hparse, hparse', hencode, hencode'⟩
    simp only [hcert, hkey, hparse, hparse', hencode, hencode', ok_bind]
    rfl

/-- The model of `New` for calls that share a file is this one, when encoding does not fail. -/
def codec (x : Packages C K) (encode : Block → Bytes) : Codec C K where
  blocks := x.blocks
  encode := encode
  parseCertificate := x.parseCertificate
  parseKey := x.parseKey
  marshalKey := x.marshalKey

theorem new_eq_parse {encode : Block → Bytes} (h : ∀ b, x.encode b = .ok (encode b)) (p : Bytes) :
    x.new p = parse (x.codec encode) p := by
  unfold new parse codec
  rw [scan_eq_lastBlock]
  dsimp only
  split
  · rename_i certBlock keyBlock heq
    obtain ⟨hcert, hkey⟩ := Prod.mk.inj heq
    rw [hcert, hkey]
    dsimp only
    cases x.parseCertificate certBlock with
    | error e => rfl
    | ok cert =>
      rw [ok_bind]
      dsimp only
      cases x.parseKey keyBlock with
      | error e => rfl
      | ok key =>
        simp only [h, ok_bind]
        rfl
  · rename_i hnone
    split
    · rename_i hcert hkey
      exact absurd (Prod.ext hcert hkey) (hnone _ _)
    · rfl

/-! ## Encoding and decoding -/

/-- What is assumed of the packages: `pem.Decode` undoes `pem.Encode`, and skips the text before a
block; a key that was marshalled is parsed as the same key. -/
structure Lawful (x : Packages C K) (plain : Bytes → Prop) : Prop where
  plain_nil : plain []
  decode_plain : ∀ text, plain text → x.decode text = none
  decode_encode : ∀ text b p rest, plain text → x.encode b = .ok p →
    x.decode (text ++ (p ++ rest)) = some (b, rest)
  parse_marshal : ∀ k, x.parseKey (x.marshalKey k) = .ok k

/-- The file is made of the encoded blocks `bs`, with plain text around them. -/
inductive Made (x : Packages C K) (plain : Bytes → Prop) : List Block → Bytes → Prop
  | nil (text : Bytes) (ht : plain text) : Made x plain [] text
  | cons (text p : Bytes) {rest : Bytes} {b : Block} {bs : List Block} (ht : plain text)
      (hp : x.encode b = .ok p) (hrest : Made x plain bs rest) :
      Made x plain (b :: bs) (text ++ (p ++ rest))

variable {plain : Bytes → Prop}

theorem Made.blocks_eq (hx : x.Lawful plain) {bs : List Block} {file : Bytes}
    (h : Made x plain bs file) : x.blocks file = bs := by
  induction h with
  | nil text ht => exact blocks_of_none (hx.decode_plain _ ht)
  | cons text p ht hp _ ih => rw [blocks_of_some (hx.decode_encode _ _ _ _ ht hp), ih]

/-- `New` makes the same authority of its contents. -/
theorem new_contents (hx : x.Lawful plain) {file : Bytes} {ca : Holder C K}
    (h : x.new file = .ok ca) : x.new ca.contents = .ok ca := by
  obtain ⟨certBlock, keyBlock, -, -, hcert, -, hcertPEM, hkeyPEM⟩ := new_ok_iff.mp h
  have hmade : Made x plain [⟨"CERTIFICATE", certBlock⟩, ⟨"RSA PRIVATE KEY", x.marshalKey ca.key⟩]
      ([] ++ (ca.certPEM ++ ([] ++ (ca.keyPEM ++ [])))) :=
    .cons _ _ hx.plain_nil hcertPEM (.cons _ _ hx.plain_nil hkeyPEM (.nil _ hx.plain_nil))
  have hblocks := hmade.blocks_eq hx
  simp only [List.nil_append, List.append_nil] at hblocks
  refine new_ok_iff.mpr ⟨certBlock, x.marshalKey ca.key, ?_, ?_, hcert, hx.parse_marshal _,
    hcertPEM, hkeyPEM⟩
  · rw [Holder.contents, hblocks]
    rfl
  · rw [Holder.contents, hblocks]
    rfl

end Packages

open Packages

/-- The bytes of a string. -/
def textBytes (text : String) : Bytes := text.toUTF8.data.toList

/-- The bytes of a file that the config of an instance holds. -/
def shipped (f : Ec2.CloudFile) : Bytes := textBytes f.content

/-- **The contents of an authority.** `New` finds the blocks of a file in their order. When it
succeeds, the authority has the certificate of the last certificate block and the key of the last
key block, and `New` makes the same authority of its contents. When it is the authority of a system,
`New` makes the same authority of the file that an instance of this system gets. -/
theorem contents_round_trip {C K : Type} (x : Packages C K) {plain : Bytes → Prop}
    (hx : x.Lawful plain) :
    (∀ bs file, Made x plain bs file → x.blocks file = bs) ∧
    ∀ file ca, x.new file = .ok ca →
      (∃ certBlock, IsLast (x.blocks file) "CERTIFICATE" certBlock ∧
        x.parseCertificate certBlock = .ok ca.cert) ∧
      (∃ keyBlock, IsLast (x.blocks file) "RSA PRIVATE KEY" keyBlock ∧
        x.parseKey keyBlock = .ok ca.key) ∧
      x.new ca.contents = .ok ca ∧
      ∀ s c, Ec2.cloudConfig s = .ok c → textBytes s.authority = ca.contents →
        ∃ f ∈ c.writeFiles, f.path = "/tmp/bigmachine.pem" ∧ x.new (shipped f) = .ok ca := by
  refine ⟨fun bs file h => h.blocks_eq hx, fun file ca h => ?_⟩
  obtain ⟨certBlock, keyBlock, hcert, hkey, hparse, hparse', -, -⟩ := new_ok_iff.mp h
  have hsame := new_contents hx h
  refine ⟨⟨certBlock, isLast_of_lastBlock hcert, hparse⟩,
    ⟨keyBlock, isLast_of_lastBlock hkey, hparse'⟩, hsame, fun s c hc hs => ?_⟩
  obtain ⟨fs, hfs⟩ := Ec2.cloudConfig_writeFiles hc
  have hfile : shipped (Ec2.authorityFile s) = ca.contents := hs
  exact ⟨Ec2.authorityFile s, by simp [hfs], rfl, hfile ▸ hsame⟩

/-! ## One instance -/

namespace Reference

/-- A block starts with a byte for its type. -/
def tag (type : String) : Option UInt8 :=
  if type = "CERTIFICATE" then some 1
  else if type = "RSA PRIVATE KEY" then some 2
  else if type = "EC PARAMETERS" then some 3
  else none

def typeOf (t : UInt8) : Option String :=
  if t = 1 then some "CERTIFICATE"
  else if t = 2 then some "RSA PRIVATE KEY"
  else if t = 3 then some "EC PARAMETERS"
  else none

/-- Every byte of the contents comes after a 1, and a 0 ends the block. -/
def armor (bytes : Bytes) : Bytes := bytes.flatMap fun c => [1, c]

def unarmor : Bytes → Option (Bytes × Bytes)
  | [] => none
  | [t] => if t = 0 then some ([], []) else none
  | t :: c :: rest =>
    if t = 0 then some ([], c :: rest)
    else if t = 1 then (unarmor rest).map fun p => (c :: p.1, p.2)
    else none

/-- Zeros before a block are skipped. -/
def decode : Bytes → Option (Block × Bytes)
  | [] => none
  | t :: rest =>
    if t = 0 then decode rest
    else (typeOf t).bind fun type => (unarmor rest).map fun p => (⟨type, p.1⟩, p.2)

theorem unarmor_armor (bytes rest : Bytes) :
    unarmor (armor bytes ++ 0 :: rest) = some (bytes, rest) := by
  induction bytes with
  | nil => cases rest <;> rfl
  | cons c bytes ih =>
    have hcons : armor (c :: bytes) = 1 :: c :: armor bytes := rfl
    rw [hcons, List.cons_append, List.cons_append, unarmor, ih]
    rfl

theorem unarmor_shorter {p bytes rest : Bytes} (h : unarmor p = some (bytes, rest)) :
    rest.length < p.length := by
  fun_induction unarmor generalizing bytes rest with
  | case1 | case3 | case6 => cases h
  | case2 | case4 =>
    cases h
    simp
  | case5 _ _ _ ih =>
    obtain ⟨q, hq, heq⟩ := Option.map_eq_some_iff.mp h
    cases heq
    have := ih hq
    simp only [List.length_cons]
    omega

theorem decode_shorter (p : Bytes) (b : Block) (rest : Bytes) (h : decode p = some (b, rest)) :
    rest.length < p.length := by
  induction p with
  | nil => cases h
  | cons t p ih =>
    rw [decode] at h
    split at h
    · exact (ih h).trans (Nat.lt_succ_self _)
    · obtain ⟨type, -, h⟩ := Option.bind_eq_some_iff.mp h
      obtain ⟨q, hq, heq⟩ := Option.map_eq_some_iff.mp h
      cases heq
      exact (unarmor_shorter hq).trans (Nat.lt_succ_self _)

def encode (b : Block) : Except Err Bytes :=
  match tag b.type with
  | some t => .ok (t :: (armor b.bytes ++ [0]))
  | none => .error (.text "pem: unknown type")

/-- Certificates are bytes, a key is the first byte of its block. -/
def packages : Packages Bytes UInt8 where
  decode := decode
  shorter := decode_shorter
  encode := encode
  parseCertificate b := .ok b
  parseKey b := match b.head? with
    | some k => .ok k
    | none => .error (.text "x509: no key")
  marshalKey k := [k]

def zeros (text : Bytes) : Prop := ∀ c ∈ text, c = 0

theorem typeOf_tag {type : String} {t : UInt8} (h : tag type = some t) :
    t ≠ 0 ∧ typeOf t = some type := by
  unfold tag at h
  split_ifs at h with h₁ h₂ h₃
  · cases h
    exact ⟨by decide, h₁ ▸ rfl⟩
  · cases h
    exact ⟨by decide, h₂ ▸ rfl⟩
  · cases h
    exact ⟨by decide, h₃ ▸ rfl⟩

theorem decode_skip {text : Bytes} (h : zeros text) (p : Bytes) :
    decode (text ++ p) = decode p := by
  induction text with
  | nil => rfl
  | cons c text ih =>
    rw [List.cons_append, decode, if_pos (h c (List.mem_cons_self ..))]
    exact ih fun c hc => h c (List.mem_cons_of_mem _ hc)

theorem packages_lawful : packages.Lawful zeros where
  plain_nil := by simp [zeros]
  decode_plain text h := by
    have hskip := decode_skip h []
    rwa [List.append_nil] at hskip
  decode_encode text b p rest ht hp := by
    change decode (text ++ (p ++ rest)) = _
    rw [decode_skip ht]
    have hp : encode b = .ok p := hp
    unfold encode at hp
    split at hp
    · rename_i t htag
      cases hp
      obtain ⟨hne, htype⟩ := typeOf_tag htag
      rw [List.cons_append, List.append_assoc, List.singleton_append, decode, if_neg hne, htype,
        unarmor_armor]
      rfl
    · cases hp
  parse_marshal k := rfl

/-- A file with two keys, two certificates and a block of another type. -/
def mixed : List Block :=
  [⟨"RSA PRIVATE KEY", [5]⟩, ⟨"CERTIFICATE", [3]⟩, ⟨"EC PARAMETERS", [1]⟩,
    ⟨"RSA PRIVATE KEY", [7, 8]⟩, ⟨"CERTIFICATE", [4]⟩]

def mixedFile : Bytes :=
  [2, 1, 5, 0, 0, 1, 1, 3, 0, 3, 1, 1, 0, 2, 1, 7, 1, 8, 0, 0, 0, 1, 1, 4, 0, 0]

def mixedHolder : Holder Bytes UInt8 := ⟨7, [4], [1, 1, 4, 0], [2, 1, 7, 0]⟩

theorem mixedFile_made : Made packages zeros mixed mixedFile :=
  .cons [] [2, 1, 5, 0] (by simp [zeros]) rfl <|
    .cons [0] [1, 1, 3, 0] (by simp [zeros]) rfl <|
    .cons [] [3, 1, 1, 0] (by simp [zeros]) rfl <|
    .cons [] [2, 1, 7, 1, 8, 0] (by simp [zeros]) rfl <|
    .cons [0, 0] [1, 1, 4, 0] (by simp [zeros]) rfl <|
    .nil [0] (by simp [zeros])

/-- The authority of this system is that of the file. -/
def mixedSystem : Ec2.SystemConfig where
  flavor := .flatcar
  dataspace := 0
  nvme := false
  authority := "\x01\x01\x04\x00\x02\x01\x07\x00"

end Reference

/-- The file has the last certificate and the last key of five blocks, and an instance gets both. -/
theorem contents_round_trip_mixed :
    Reference.packages.new Reference.mixedFile = .ok Reference.mixedHolder ∧
      IsLast Reference.mixed "CERTIFICATE" [4] ∧
      Reference.packages.new Reference.mixedHolder.contents = .ok Reference.mixedHolder ∧
      ∃ c, Ec2.cloudConfig Reference.mixedSystem = .ok c ∧ ∃ f ∈ c.writeFiles,
        f.path = "/tmp/bigmachine.pem" ∧
        Reference.packages.new (shipped f) = .ok Reference.mixedHolder := by
  have hround := contents_round_trip Reference.packages Reference.packages_lawful
  have hblocks := hround.1 _ _ Reference.mixedFile_made
  have hnew : Reference.packages.new Reference.mixedFile = .ok Reference.mixedHolder :=
    new_ok_iff.mpr ⟨[4], [7, 8], by rw [hblocks]; rfl, by rw [hblocks]; rfl, rfl, rfl, rfl, rfl⟩
  obtain ⟨⟨certBlock, hlast, hparse⟩, -, hsame, hshipped⟩ := hround.2 _ _ hnew
  cases Except.ok.inj hparse
  have hslices : (Ec2.sliceConfig Reference.mixedSystem.dataspace).1.toInt = (0 : Nat) := by
    decide +kernel
  obtain ⟨c, hc, -⟩ := Ec2.cloudConfig_uses hslices
  have hauthority : textBytes Reference.mixedSystem.authority = Reference.mixedHolder.contents := by
    decide +kernel
  exact ⟨hnew, hblocks ▸ hlast, hsame, c, hc, hshipped _ c hc hauthority⟩

end Bigmachine.Authority
