import LinuxCpp.C.Bytes
import LinuxCpp.Ustack.ReadOrder

set_option autoImplicit false

/- What `nrecv` reports, with its buffers as memory: the copy into the buffer of the
caller, and the loop that moves the rest of a fragment to the front of its block. -/
namespace LinuxCpp.Ustack

open C

/-- The loop of `nrecv` from index `i` on:
`fragment->data[i] = fragment->data[len + i]`. -/
def shiftRest (data : List UInt8) (len i : Nat) : Nat → Except Fault (List UInt8)
  | 0 => return data
  | rounds + 1 => do
      let byte ← load8 data (len + i)
      let data ← storeAt data i [byte]
      shiftRest data len (i + 1) rounds

/-- `nrecv` with the buffer of the caller; `none` while the ring is empty. The block of
the fragment keeps its size. -/
def recvInto (stream : Stream) (buf : List UInt8) (len : Nat) :
    Except Fault (Option (Int × List UInt8 × Stream)) := do
  match stream.rcvbuf with
  | none => throw .nullDeref
  | some rcvbuf =>
      match rcvbuf.entries with
      | [] => return none
      | fragment :: entries =>
          let rcvbuf := { rcvbuf with entries := entries }
          if len < fragment.length.toNat then
            let bytes ← loadAt fragment.bytes 0 len
            let buf ← storeAt buf 0 bytes
            let data ← shiftRest fragment.bytes len 0 (fragment.length.toNat - len)
            let rest := { fragment with
              data := some data, length := .ofNat (fragment.length.toNat - len) }
            return some (rest.length.toNat, buf, { stream with
              rcvbuf := some (rcvbuf.enqueue rest) })
          else if fragment.length = 0 then
            return some (0, buf, { stream with rcvbuf := some rcvbuf })
          else
            let bytes ← loadAt fragment.bytes 0 fragment.length.toNat
            let buf ← storeAt buf 0 bytes
            return some (fragment.length.toNat, buf, { stream with rcvbuf := some rcvbuf })

/-- The bytes of the block that count. -/
def Fragment.live (f : Fragment) : List UInt8 := f.bytes.take f.length.toNat

/-- The fragment and the stream without what is left behind in the blocks. -/
def Fragment.trimmed (f : Fragment) : Fragment :=
  { f with data := f.data.map fun data => data.take f.length.toNat }

def Stream.trimmed (s : Stream) : Stream :=
  { s with rcvbuf := s.rcvbuf.map fun r =>
    { r with entries := r.entries.map Fragment.trimmed } }

/-- The call copies the first bytes of the fragment, returns their number and leaves the
others in the ring behind `waiting`. -/
def Reports (s : Stream) (buf : List UInt8) (len : Nat) (fragment : Fragment)
    (waiting : List Fragment) : Prop :=
  ∃ buf' ring, recvInto s buf len = .ok (some ((min len fragment.length.toNat : Nat), buf',
      { s with rcvbuf := some ring })) ∧
    buf' = fragment.live.take len ++ buf.drop (min len fragment.length.toNat) ∧
    if len < fragment.length.toNat then
      ∃ rest, ring.entries = waiting ++ [rest] ∧ rest.live = fragment.live.drop len
    else ring.entries = waiting

section Shift

variable {data : List UInt8} {len i rounds : Nat}

/-- Each turn reads a byte that no turn before it has written. -/
theorem shiftRest_eq (inside : len + i + rounds ≤ data.length) :
    shiftRest data len i rounds =
      .ok (data.take i ++ ((data.drop (len + i)).take rounds ++ data.drop (i + rounds))) := by
  induction rounds generalizing i data with
  | zero =>
      rw [shiftRest, List.take_zero, List.nil_append, Nat.add_zero, List.take_append_drop]
      rfl
  | succ rounds ih =>
      have here : len + i < data.length := by omega
      have byte : loadAt data (len + i) 1 = .ok [data[len + i]] := by
        rw [loadAt_eq (by omega), List.take_one, List.head?_drop, List.getElem?_eq_getElem here]
        rfl
      have read : load8 data (len + i) = .ok data[len + i] := by
        apply load8_eq
        rw [byte, bytesOf_one]
      obtain ⟨data', stored⟩ : ∃ data', storeAt data i [data[len + i]] = .ok data' :=
        ⟨_, storeAt_eq (show i + 1 ≤ data.length by omega)⟩
      have length := storeAt_length stored
      have front := take_storeAt stored
      have behind {j : Nat} (after : i + 1 ≤ j) : data'.drop j = data.drop j :=
        drop_storeAt stored after
      rw [List.length_singleton] at front
      have rest := ih (show len + (i + 1) + rounds ≤ data'.length by omega)
      rw [shiftRest, read, ok_bind, stored, ok_bind, rest, front, behind (by omega),
        behind (by omega), List.drop_eq_getElem_cons here, List.take_succ_cons, List.append_assoc]
      simp only [List.cons_append, List.nil_append, Nat.add_assoc, Nat.add_comm 1 rounds]

/-- The rest of a fragment comes to the front of its block. -/
theorem shiftRest_live {length : Nat} (longer : len ≤ length) (held : length ≤ data.length) :
    ∃ data', shiftRest data len 0 (length - len) = .ok data' ∧
      data'.take (length - len) = (data.take length).drop len := by
  refine ⟨_, shiftRest_eq (by omega), ?_⟩
  have size : ((data.drop len).take (length - len)).length = length - len :=
    List.length_take_of_le (by rw [List.length_drop]; omega)
  rw [List.take_zero, List.nil_append, Nat.add_zero, List.take_left' size, List.drop_take]

end Shift

section Report

variable {s : Stream} {r : Ring Fragment} {fragment : Fragment} {waiting : List Fragment}
  {buf : List UInt8} {len : Nat}

/-- A fragment that fits into the buffer. -/
theorem recvInto_whole (made : s.rcvbuf = some r) (first : r.entries = fragment :: waiting)
    (held : fragment.length.toNat ≤ fragment.bytes.length) (room : len ≤ buf.length)
    (fits : fragment.length.toNat ≤ len) :
    recvInto s buf len = .ok (some (fragment.length.toNat,
      fragment.live ++ buf.drop fragment.length.toNat,
      { s with rcvbuf := some { r with entries := waiting } })) := by
  have size : fragment.live.length = fragment.length.toNat := List.length_take_of_le held
  simp only [recvInto, made, first]
  rw [if_neg (Nat.not_lt.mpr fits)]
  by_cases nothing : fragment.length = 0
  · have none_ : fragment.length.toNat = 0 := by rw [nothing]; rfl
    have blank : fragment.live = [] := List.eq_nil_of_length_eq_zero (size.trans none_)
    rw [if_pos nothing, none_, blank]
    rfl
  · obtain ⟨bytes, loaded⟩ : ∃ bytes, loadAt fragment.bytes 0 fragment.length.toNat = .ok bytes :=
      ⟨_, loadAt_eq (by omega)⟩
    have copied : bytes = fragment.live := (loadAt_ok loaded).2
    have stored := storeAt_eq (show 0 + fragment.live.length ≤ buf.length by omega)
    rw [if_neg nothing, loaded, ok_bind, copied, stored, ok_bind, size, Nat.zero_add]
    rfl

/-- A fragment that is longer than the buffer. -/
theorem recvInto_split (made : s.rcvbuf = some r) (first : r.entries = fragment :: waiting)
    (held : fragment.length.toNat ≤ fragment.bytes.length) (room : len ≤ buf.length)
    (bounded : r.entries.length ≤ ringSize - 1) (longer : len < fragment.length.toNat) :
    ∃ rest : Fragment, rest.trimmed = { fragment with
        data := some (fragment.live.drop len),
        length := .ofNat (fragment.length.toNat - len) } ∧
      rest.live = fragment.live.drop len ∧
      recvInto s buf len = .ok (some ((fragment.length.toNat - len : Nat),
        fragment.live.take len ++ buf.drop len,
        { s with rcvbuf := some { r with entries := waiting ++ [rest] } })) := by
  obtain ⟨data, shifted, live⟩ := shiftRest_live (Nat.le_of_lt longer) held
  have small := fragment.length.toNat_lt
  have number : (UInt32.ofNat (fragment.length.toNat - len)).toNat =
      fragment.length.toNat - len := by
    rw [UInt32.toNat_ofNat', Nat.mod_eq_of_lt (by omega)]
  have place : waiting.length < ringSize - 1 := by
    rw [first, List.length_cons] at bounded
    omega
  obtain ⟨bytes, loaded⟩ : ∃ bytes, loadAt fragment.bytes 0 len = .ok bytes :=
    ⟨_, loadAt_eq (by omega)⟩
  have copied : bytes = fragment.live.take len := by
    rw [(loadAt_ok loaded).2, Fragment.live, List.take_take, Nat.min_eq_left (Nat.le_of_lt longer)]
    rfl
  have size : (fragment.live.take len).length = len := by
    rw [← copied, (loadAt_ok loaded).2]
    exact List.length_take_of_le (by rw [List.length_drop]; omega)
  have stored := storeAt_eq (show 0 + (fragment.live.take len).length ≤ buf.length by omega)
  refine ⟨{ fragment with
    data := some data, length := .ofNat (fragment.length.toNat - len) }, ?_, ?_, ?_⟩
  · simp only [Fragment.trimmed, Option.map_some, number, live]
    rfl
  · show data.take (UInt32.ofNat (fragment.length.toNat - len)).toNat = fragment.live.drop len
    rw [number]
    exact live
  · simp only [recvInto, made, first]
    rw [if_pos longer, loaded, ok_bind, copied, stored, ok_bind, shifted, ok_bind, number, size,
      Ring.enqueue, if_pos place, Nat.zero_add]
    rfl

theorem Fragment.trimmed_bytes (f : Fragment) : f.trimmed.bytes = f.live := by
  unfold Fragment.bytes Fragment.live Fragment.trimmed Fragment.bytes
  cases f.data with
  | none => exact List.take_nil.symm
  | some data => rfl

/-- With the blocks cut to their fragments it is the call that the rest of the stack sees. -/
theorem recvInto_refines (made : s.rcvbuf = some r) (first : r.entries = fragment :: waiting)
    (held : fragment.length.toNat ≤ fragment.bytes.length) (room : len ≤ buf.length)
    (bounded : r.entries.length ≤ ringSize - 1) :
    ∃ got s', recvStream s.trimmed len = .ok (some got) ∧
      recvInto s buf len = .ok (some (got.ret, got.copied ++ buf.drop got.copied.length, s')) ∧
      s'.trimmed = got.stream := by
  have size : fragment.live.length = fragment.length.toNat := List.length_take_of_le held
  have bytes := fragment.trimmed_bytes
  have made' : s.trimmed.rcvbuf = some { r with entries := r.entries.map Fragment.trimmed } := by
    simp only [Stream.trimmed, made, Option.map_some]
  have place : (waiting.map Fragment.trimmed).length < ringSize - 1 := by
    rw [first, List.length_cons] at bounded
    rw [List.length_map]
    omega
  have length : fragment.trimmed.length = fragment.length := rfl
  simp only [recvStream, made', first, List.map_cons, bytes, length]
  rcases Nat.lt_or_ge len fragment.length.toNat with longer | fits
  · obtain ⟨rest, trimmed, live, ran⟩ := recvInto_split made first held room bounded longer
    have small := fragment.length.toNat_lt
    have number : (UInt32.ofNat (fragment.length.toNat - len)).toNat =
        fragment.length.toNat - len := by
      rw [UInt32.toNat_ofNat', Nat.mod_eq_of_lt (by omega)]
    have copied : (fragment.live.take len).length = len := List.length_take_of_le (by omega)
    rw [if_pos longer, number, Ring.enqueue, if_pos place]
    refine ⟨_, { s with rcvbuf := some { r with entries := waiting ++ [rest] } }, rfl, ?_, ?_⟩
    · simp only [copied]
      exact ran
    · simp only [Stream.trimmed, Option.map_some, List.map_append, List.map_cons, List.map_nil,
        trimmed]
      rfl
  · have ran := recvInto_whole made first held room fits
    rw [if_neg (Nat.not_lt.mpr fits)]
    by_cases nothing : fragment.length = 0
    · have none_ : fragment.length.toNat = 0 := by
        rw [nothing]
        rfl
      have blank : fragment.live = [] := List.eq_nil_of_length_eq_zero (size.trans none_)
      rw [none_, blank] at ran
      rw [if_pos nothing]
      exact ⟨_, _, rfl, ran, rfl⟩
    · have whole : fragment.live.take fragment.length.toNat = fragment.live :=
        List.take_of_length_le (Nat.le_of_eq size)
      rw [if_neg nothing, whole]
      refine ⟨_, { s with rcvbuf := some { r with entries := waiting } }, rfl, ?_, rfl⟩
      simp only [size]
      exact ran

/-- A short read returns the number of the bytes that it leaves, not of those it copies. -/
theorem reports_iff (made : s.rcvbuf = some r) (first : r.entries = fragment :: waiting)
    (held : fragment.length.toNat ≤ fragment.bytes.length) (room : len ≤ buf.length)
    (bounded : r.entries.length ≤ ringSize - 1) :
    Reports s buf len fragment waiting ↔
      fragment.length.toNat ≤ len ∨ fragment.length.toNat = 2 * len := by
  rcases Nat.lt_or_ge len fragment.length.toNat with longer | fits
  · obtain ⟨rest, -, live, ran⟩ := recvInto_split made first held room bounded longer
    have count : min len fragment.length.toNat = len := Nat.min_eq_left (Nat.le_of_lt longer)
    constructor
    · rintro ⟨buf', ring, ran', -, -⟩
      rw [ran] at ran'
      have returned := congrArg Prod.fst (Option.some.inj (Except.ok.inj ran'))
      rw [count] at returned
      have same : fragment.length.toNat - len = len := Int.ofNat_inj.mp returned
      exact .inr (by omega)
    · rintro (fits | double)
      · omega
      · have half : fragment.length.toNat - len = len := by omega
        rw [half] at ran
        refine ⟨fragment.live.take len ++ buf.drop len, { r with entries := waiting ++ [rest] },
          ?_, by rw [count], ?_⟩
        · rw [count]
          exact ran
        · rw [if_pos longer]
          exact ⟨rest, rfl, live⟩
  · have size : fragment.live.length = fragment.length.toNat := List.length_take_of_le held
    have count : min len fragment.length.toNat = fragment.length.toNat := Nat.min_eq_right fits
    refine iff_of_true ⟨_, _, count ▸ recvInto_whole made first held room fits, ?_, ?_⟩ (.inl fits)
    · rw [count, List.take_of_length_le (size.trans_le fits)]
    · rw [if_neg (Nat.not_lt.mpr fits)]

end Report

/-- Ten bytes in a ring. -/
def tenBytes : Fragment :=
  { Fragment.zeroed with data := some [0, 1, 2, 3, 4, 5, 6, 7, 8, 9], length := 10 }

def holdingTen : Stream :=
  ⟨1, 3, 4, 1, 3, 2, 100, 10, .established, none, some ⟨2, .tcpRecvBuffer, [tenBytes]⟩⟩

/-- A buffer of five bytes takes half of them, one of twelve takes them all. -/
theorem reports_iff_ten :
    Reports holdingTen (List.replicate 5 9) 5 tenBytes [] ∧
      Reports holdingTen (List.replicate 12 9) 12 tenBytes [] :=
  ⟨(reports_iff rfl rfl (by decide) (by decide) (by decide)).mpr (by decide),
    (reports_iff rfl rfl (by decide) (by decide) (by decide)).mpr (by decide)⟩

/-- Four bytes are copied and six are reported. -/
theorem reports_not_ten : ¬ Reports holdingTen [9, 9, 9, 9] 4 tenBytes [] := by
  rintro ⟨buf, ring, ran, -, -⟩
  have six : ∃ s, recvInto holdingTen [9, 9, 9, 9] 4 = .ok (some (6, [0, 1, 2, 3], s)) := ⟨_, rfl⟩
  obtain ⟨s, six⟩ := six
  rw [six] at ran
  have returned : (6 : Int) = (min 4 tenBytes.length.toNat : Nat) :=
    congrArg Prod.fst (Option.some.inj (Except.ok.inj ran))
  exact absurd returned (by decide)

end LinuxCpp.Ustack
