import Mathlib.Data.List.Basic
import Mathlib.Tactic.Common
import PinnedMap.Picture.Base64
import PinnedMap.Proofs.Attempt

/-! Decoding accepts the encoding of every sequence of bytes, and no other text. Both directions meet in the sextets,
of which every four make three bytes: two or three at the end are tidy if the bits that fill no byte are zero. -/
namespace PinnedMap.Base64

open Attempt

private theorem sextet?_eq_some_iff {byte : UInt8} {value : Nat} :
    sextet? byte = some value ↔ value < 64 ∧ byte = symbol value := by
  have known : ∀ n < 256, ∀ v ∈ sextet? (UInt8.ofNat n), v < 64 ∧ UInt8.ofNat n = symbol v := by decide +kernel
  have shown : ∀ v < 64, sextet? (symbol v) = some v := by decide +kernel
  constructor
  · intro same
    have all := known byte.toNat byte.toNat_lt value
    rw [UInt8.ofNat_toNat] at all
    exact all same
  · rintro ⟨small,rfl⟩
    exact shown value small

example : (List.range 64).map symbol =
    "ABCDEFGHIJKLMNOPQRSTUVWXYZabcdefghijklmnopqrstuvwxyz0123456789+/".toList.map fun c => UInt8.ofNat c.toNat := by
  decide +kernel

private theorem sextet?_symbol {value : Nat} (small : value < 64) : sextet? (symbol value) = some value :=
  sextet?_eq_some_iff.mpr ⟨small,rfl⟩

private theorem isSymbol_symbol {value : Nat} (small : value < 64) : isSymbol (symbol value) = true := by
  rw [isSymbol,sextet?_symbol small]
  rfl

theorem isSymbol_pad : isSymbol pad = false := rfl

private theorem exists_symbols {bytes : List UInt8} (each : ∀ byte ∈ bytes, isSymbol byte = true) :
    ∃ values : List Nat, (∀ value ∈ values, value < 64) ∧ bytes = values.map symbol := by
  induction bytes with
  | nil => exact ⟨[],nofun,rfl⟩
  | cons byte bytes ih =>
    obtain ⟨first,others⟩ := List.forall_mem_cons.mp each
    obtain ⟨values,small,rfl⟩ := ih others
    obtain ⟨value,known⟩ := Option.isSome_iff_exists.mp first
    obtain ⟨below,rfl⟩ := sextet?_eq_some_iff.mp known
    exact ⟨value :: values,List.forall_mem_cons.mpr ⟨below,small⟩,rfl⟩

private theorem filterMap_symbols {values : List Nat} (small : ∀ value ∈ values, value < 64) :
    (values.map symbol).filterMap sextet? = values := by
  induction values with
  | nil => rfl
  | cons value values ih =>
    obtain ⟨below,small⟩ := List.forall_mem_cons.mp small
    rw [List.map_cons,List.filterMap_cons_some (sextet?_symbol below),ih small]

private theorem sextets_eq_ok_iff {offset : Nat} {bytes : List UInt8} {values : List Nat} :
    sextets offset bytes = .ok values ↔ (∀ value ∈ values, value < 64) ∧ bytes = values.map symbol := by
  induction bytes generalizing offset values with
  | nil =>
    rw [sextets]
    cases values <;> simp
  | cons byte bytes ih =>
    rw [sextets]
    cases known : sextet? byte with
    | none =>
      refine iff_of_false nofun ?_
      rintro ⟨small,same⟩
      cases values with
      | nil => cases same
      | cons value values =>
        obtain ⟨rfl,_⟩ := List.cons.inj same
        rw [sextet?_symbol (small value (by simp))] at known
        cases known
    | some value =>
      obtain ⟨below,rfl⟩ := sextet?_eq_some_iff.mp known
      constructor
      · intro read
        obtain ⟨others,rest,rfl⟩ : ∃ others, sextets (offset + 1) bytes = .ok others ∧ value :: others = values := by
          cases rest : sextets (offset + 1) bytes with
          | error fault =>
            rw [rest] at read
            cases read
          | ok others =>
            rw [rest] at read
            exact ⟨others,rfl,Except.ok.inj read⟩
        obtain ⟨small,same⟩ := ih.mp rest
        exact ⟨List.forall_mem_cons.mpr ⟨below,small⟩,congrArg (symbol value :: ·) same⟩
      · rintro ⟨small,same⟩
        cases values with
        | nil => cases same
        | cons other values =>
          obtain ⟨below',small⟩ := List.forall_mem_cons.mp small
          obtain ⟨first,rest⟩ := List.cons.inj same
          have both := congrArg sextet? first
          rw [sextet?_symbol below,sextet?_symbol below',Option.some.injEq] at both
          change (sextets (offset + 1) bytes).map (value :: ·) = _
          rw [ih.mpr ⟨small,rest⟩,both]
          rfl

def split : List UInt8 → List Nat
  | [] => []
  | [a] => [a.toNat / 4,a.toNat % 4 * 16]
  | [a,b] => [a.toNat / 4,a.toNat % 4 * 16 + b.toNat / 16,b.toNat % 16 * 4]
  | a :: b :: c :: rest =>
    a.toNat / 4 :: (a.toNat % 4 * 16 + b.toNat / 16) :: (b.toNat % 16 * 4 + c.toNat / 64) :: (c.toNat % 64) :: split rest

def padding (symbols : Nat) : List UInt8 := List.replicate ((4 - symbols % 4) % 4) pad

inductive IsTidy : List Nat → Prop
  | nil : IsTidy []
  | two {a b : Nat} (first : a < 64) (second : b < 64) (unused : b % 16 = 0) : IsTidy [a,b]
  | three {a b c : Nat} (first : a < 64) (second : b < 64) (third : c < 64) (unused : c % 4 = 0) : IsTidy [a,b,c]
  | four {a b c d : Nat} {rest : List Nat} (first : a < 64) (second : b < 64) (third : c < 64) (fourth : d < 64)
      (tidy : IsTidy rest) : IsTidy (a :: b :: c :: d :: rest)

private theorem padding_add_four (symbols : Nat) : padding (symbols + 4) = padding symbols := by
  unfold padding
  rw [Nat.add_mod_right]

theorem encode_eq (data : List UInt8) : encode data = (split data).map symbol ++ padding (split data).length := by
  fun_induction encode data with
  | case1 => rfl
  | case2 => rfl
  | case3 => rfl
  | case4 a b c rest ih =>
    rw [split,ih]
    simp only [List.map_cons,List.length_cons,List.cons_append]
    rw [padding_add_four]

theorem isTidy_split (data : List UInt8) : IsTidy (split data) := by
  fun_induction split data with
  | case1 => exact .nil
  | case2 a =>
    have := a.toNat_lt
    exact .two (by omega) (by omega) (by omega)
  | case3 a b =>
    have := a.toNat_lt
    have := b.toNat_lt
    exact .three (by omega) (by omega) (by omega) (by omega)
  | case4 a b c rest ih =>
    have := a.toNat_lt
    have := b.toNat_lt
    have := c.toNat_lt
    exact .four (by omega) (by omega) (by omega) (by omega) ih

private theorem ofNat_eq (byte : UInt8) {n : Nat} (same : n = byte.toNat) : UInt8.ofNat n = byte := by
  rw [same,UInt8.ofNat_toNat]

private theorem pack_split (data : List UInt8) : pack (split data) = data := by
  fun_induction split data with
  | case1 => rfl
  | case2 a => rw [pack,ofNat_eq a (by omega)]
  | case3 a b =>
    have := b.toNat_lt
    rw [pack,ofNat_eq a (by omega),ofNat_eq b (by omega)]
  | case4 a b c rest ih =>
    have := b.toNat_lt
    have := c.toNat_lt
    rw [pack,ofNat_eq a (by omega),ofNat_eq b (by omega),ofNat_eq c (by omega),ih]

theorem IsTidy.split_pack {values : List Nat} (tidy : IsTidy values) : split (pack values) = values := by
  induction tidy with
  | nil => rfl
  | @two a b _ _ unused =>
    have first : (a * 4 + b / 16) % 256 = a * 4 + b / 16 := Nat.mod_eq_of_lt (by omega)
    simp only [pack,split,UInt8.toNat_ofNat',List.cons.injEq,and_true,first]
    omega
  | @three a b c _ _ _ unused =>
    have first : (a * 4 + b / 16) % 256 = a * 4 + b / 16 := Nat.mod_eq_of_lt (by omega)
    have second : (b % 16 * 16 + c / 4) % 256 = b % 16 * 16 + c / 4 := Nat.mod_eq_of_lt (by omega)
    simp only [pack,split,UInt8.toNat_ofNat',List.cons.injEq,and_true,first,second]
    omega
  | @four a b c d rest _ _ _ _ _ ih =>
    have first : (a * 4 + b / 16) % 256 = a * 4 + b / 16 := Nat.mod_eq_of_lt (by omega)
    have second : (b % 16 * 16 + c / 4) % 256 = b % 16 * 16 + c / 4 := Nat.mod_eq_of_lt (by omega)
    have third : (c % 4 * 64 + d) % 256 = c % 4 * 64 + d := Nat.mod_eq_of_lt (by omega)
    simp only [pack,split,UInt8.toNat_ofNat',List.cons.injEq,first,second,third]
    exact ⟨by omega,by omega,by omega,by omega,ih⟩

theorem IsTidy.small {values : List Nat} (tidy : IsTidy values) : ∀ value ∈ values, value < 64 := by
  induction tidy with
  | nil => nofun
  | two => simp [*]
  | three => simp [*]
  | four _ _ _ _ _ ih => simpa [*] using ih

theorem IsTidy.append {front last : List Nat} (whole : 4 ∣ front.length) (small : ∀ value ∈ front, value < 64)
    (tidy : IsTidy last) : IsTidy (front ++ last) := by
  match front with
  | [] => exact tidy
  | [_] | [_,_] | [_,_,_] => simp at whole
  | a :: b :: c :: d :: rest =>
    simp only [List.forall_mem_cons] at small
    obtain ⟨first,second,third,fourth,others⟩ := small
    have fewer : 4 ∣ rest.length := by simp only [List.length_cons] at whole; omega
    exact .four first second third fourth (tidy.append fewer others)
termination_by front.length

theorem IsTidy.exists_last {values : List Nat} (tidy : IsTidy values) (some : values ≠ []) : ∃ front last,
    values = front ++ last ∧ 4 ∣ front.length ∧ last ≠ [] ∧ last.length ≤ 4 ∧ IsTidy last := by
  induction tidy with
  | nil => contradiction
  | two first second unused => exact ⟨[],_,rfl,by simp,by simp,by simp,.two first second unused⟩
  | three first second third unused =>
    exact ⟨[],_,rfl,by simp,by simp,by simp,.three first second third unused⟩
  | @four a b c d rest first second third fourth tidy ih =>
    cases rest with
    | nil => exact ⟨[],_,rfl,by simp,by simp,by simp,.four first second third fourth .nil⟩
    | cons =>
      obtain ⟨front,last,same,whole,some,short,tidy⟩ := ih (by simp)
      refine ⟨a :: b :: c :: d :: front,last,by rw [same]; rfl,?_,some,short,tidy⟩
      simp only [List.length_cons]
      omega

private theorem takeWhile_symbols {values : List Nat} (small : ∀ value ∈ values, value < 64) (count : Nat) :
    (values.map symbol ++ List.replicate count pad).takeWhile isSymbol = values.map symbol ∧
      (values.map symbol ++ List.replicate count pad).dropWhile isSymbol = List.replicate count pad := by
  have symbols : ∀ byte ∈ values.map symbol, isSymbol byte = true := by
    intro byte member
    obtain ⟨value,listed,rfl⟩ := List.mem_map.mp member
    exact isSymbol_symbol (small value listed)
  rw [List.takeWhile_append_of_pos symbols,List.dropWhile_append_of_pos symbols]
  cases count with
  | zero => exact ⟨List.append_nil _,rfl⟩
  | succ count => simp [List.replicate_succ,isSymbol_pad]

private theorem lastQuad_eq_ok_iff {offset : Nat} {quad : List UInt8} {values : List Nat} :
    lastQuad offset quad = .ok values ↔ 2 ≤ (quad.takeWhile isSymbol).length ∧
      (∀ byte ∈ quad.dropWhile isSymbol, byte = pad) ∧ quad.length = 4 ∧
      unusedBits ((quad.takeWhile isSymbol).filterMap sextet?) = 0 ∧
      (quad.takeWhile isSymbol).filterMap sextet? = values := by
  unfold lastQuad
  dsimp only
  generalize quad.takeWhile isSymbol = symbols
  rw [← Nat.not_lt]
  cases quad.dropWhile isSymbol with
  | nil =>
    simp only [unless_eq_ok]
    simp [pure,Except.pure]
  | cons byte more =>
    simp only [unless_eq_ok]
    simp [pure,Except.pure]
    tauto

private theorem lastQuad_iff_tidy {offset : Nat} {quad : List UInt8} {values : List Nat} :
    lastQuad offset quad = .ok values ↔ IsTidy values ∧ values ≠ [] ∧ values.length ≤ 4 ∧
      quad = values.map symbol ++ padding values.length := by
  rw [lastQuad_eq_ok_iff]
  constructor
  · rintro ⟨enough,padded,four,unused,same⟩
    have taken : ∀ byte ∈ quad.takeWhile isSymbol, isSymbol byte = true := List.all_eq_true.mp List.all_takeWhile
    obtain ⟨found,small,symbols⟩ := exists_symbols taken
    rw [symbols,filterMap_symbols small] at unused same
    subst found
    have parts := List.takeWhile_append_dropWhile (p := isSymbol) (l := quad)
    rw [symbols,List.eq_replicate_of_mem padded] at parts
    rw [symbols,List.length_map] at enough
    generalize (quad.dropWhile isSymbol).length = count at parts
    subst quad
    rw [List.length_append,List.length_map,List.length_replicate] at four
    match values with
    | [a,b] =>
      obtain rfl : count = 2 := by simp at four; omega
      exact ⟨.two (small a (by simp)) (small b (by simp)) unused,by simp,by simp,by simp [padding]⟩
    | [a,b,c] =>
      obtain rfl : count = 1 := by simp at four; omega
      exact ⟨.three (small a (by simp)) (small b (by simp)) (small c (by simp)) unused,by simp,by simp,
        by simp [padding]⟩
    | [a,b,c,d] =>
      obtain rfl : count = 0 := by simpa using four
      exact ⟨.four (small a (by simp)) (small b (by simp)) (small c (by simp)) (small d (by simp)) .nil,by simp,by simp,
        by simp [padding]⟩
    | [] | [_] => simp at enough
    | _ :: _ :: _ :: _ :: _ :: _ => simp at four; omega
  · rintro ⟨tidy,some,short,rfl⟩
    obtain ⟨front,back⟩ := takeWhile_symbols tidy.small ((4 - values.length % 4) % 4)
    unfold padding
    rw [front,back,filterMap_symbols tidy.small,List.length_append,List.length_map,List.length_replicate]
    have unused : unusedBits values = 0 ∧ 2 ≤ values.length := by
      cases tidy with
      | nil => contradiction
      | two _ _ unused => exact ⟨unused,by simp⟩
      | three _ _ _ unused => exact ⟨unused,by simp⟩
      | four => exact ⟨rfl,by simp⟩
    exact ⟨unused.2,fun byte member => List.eq_of_mem_replicate member,by omega,unused.1,rfl⟩

/-- The last group stands after whole groups, and succeeds or fails apart from them. -/
theorem decode_append_iff {front last data : List UInt8} (whole : 4 ∣ front.length) (some : last ≠ [])
    (short : last.length ≤ 4) : decode (front ++ last) = .ok data ↔ ∃ values, sextets 0 front = .ok values ∧
      ∃ others, lastQuad front.length last = .ok others ∧ pack (values ++ others) = data := by
  have positive := List.length_pos_of_ne_nil some
  have offset : ((front ++ last).length - 1) / 4 * 4 = front.length := by
    rw [List.length_append]
    omega
  unfold decode
  dsimp only
  rw [offset,List.drop_left,List.take_left]
  match last with
  | [byte] =>
    have alone (others : List Nat) : lastQuad front.length [byte] ≠ .ok others := by
      intro read
      obtain ⟨_,_,four,_⟩ := lastQuad_eq_ok_iff.mp read
      cases four
    simp only [unless_eq_ok,bind_eq_ok,alone,false_and,exists_false,and_false]
  | _ :: _ :: _ =>
    simp only [bind_eq_ok,pure,Except.pure]
    simp

private theorem decode_iff_tidy {bytes data : List UInt8} : decode bytes = .ok data ↔ ∃ values, IsTidy values ∧
    bytes = values.map symbol ++ padding values.length ∧ pack values = data := by
  constructor
  · intro decoded
    by_cases none : bytes = []
    · subst none
      exact ⟨[],.nil,rfl,Except.ok.inj decoded⟩
    · have positive := List.length_pos_of_ne_nil none
      obtain ⟨cut,isCut⟩ : ∃ cut, cut = (bytes.length - 1) / 4 * 4 := ⟨_,rfl⟩
      have parts := List.take_append_drop cut bytes
      have length : (bytes.take cut).length = cut := List.length_take_of_le (by omega)
      rw [← parts] at decoded
      obtain ⟨front,first,last,quad,rfl⟩ := (decode_append_iff (by omega)
        (List.ne_nil_of_length_pos (by rw [List.length_drop]; omega)) (by rw [List.length_drop]; omega)).mp decoded
      obtain ⟨small,isFront⟩ := sextets_eq_ok_iff.mp first
      obtain ⟨tidy,_,_,isLast⟩ := lastQuad_iff_tidy.mp quad
      rw [isFront,List.length_map] at length
      refine ⟨front ++ last,tidy.append (by omega) small,?_,rfl⟩
      have same : padding (front ++ last).length = padding last.length := by
        unfold padding
        rw [List.length_append,length,isCut,Nat.mul_add_mod_self_right]
      rw [same,List.map_append,List.append_assoc,← isLast,← isFront,parts]
  · rintro ⟨values,tidy,rfl,rfl⟩
    by_cases none : values = []
    · subst none
      rfl
    · obtain ⟨front,last,rfl,whole,some,short,tidy'⟩ := tidy.exists_last none
      have small : ∀ value ∈ front, value < 64 := fun value member => tidy.small value (List.mem_append_left last member)
      have same : padding (front ++ last).length = padding last.length := by
        obtain ⟨count,length⟩ := whole
        unfold padding
        rw [List.length_append,length,Nat.mul_add_mod]
      have quad (offset : Nat) : lastQuad offset (last.map symbol ++ padding last.length) = .ok last :=
        lastQuad_iff_tidy.mpr ⟨tidy',some,short,rfl⟩
      have shown : (last.map symbol ++ padding last.length).length ≤ 4 := by
        obtain ⟨_,_,four,_⟩ := lastQuad_eq_ok_iff.mp (quad 0)
        exact Nat.le_of_eq four
      rw [same,List.map_append,List.append_assoc]
      exact (decode_append_iff (by rwa [List.length_map]) (by simp [some]) shown).mpr
        ⟨front,sextets_eq_ok_iff.mpr ⟨small,rfl⟩,last,quad _,rfl⟩

/-- Nothing is decoded but the encoding of what it is decoded to. -/
theorem decode_eq_ok_iff {bytes data : List UInt8} : decode bytes = .ok data ↔ bytes = encode data := by
  rw [decode_iff_tidy,encode_eq]
  constructor
  · rintro ⟨values,tidy,rfl,rfl⟩
    rw [tidy.split_pack]
  · rintro rfl
    exact ⟨split data,isTidy_split data,rfl,pack_split data⟩

end PinnedMap.Base64
