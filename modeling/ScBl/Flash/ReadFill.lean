import ScBl.Flash.Read
import ScBl.Flash.Write
import Mathlib.Data.List.GetD

/-!
# What a read leaves in the buffer

Both read functions store bytes of the stream from the start of the buffer on, in order. The fast
read stores whole words after its head, so that it drops what is left for a last word; the quad
read drops one byte more of the stream than it reads beyond the size.
-/

namespace ScBl

open Bytes Progs Xqspi

variable {x : Xlen}

/-! ## Buffers -/

/-- The stores of some bytes in a row. -/
def storesOf (buf : x.Word) (data : List U8) : List (x.Word × U8) :=
  data.mapIdx fun i b => (buf + BitVec.ofNat _ i, b)

/-- Memory after some stores. -/
def afterStores (m : x.Word → U8) (stores : List (x.Word × U8)) : x.Word → U8 :=
  stores.foldl (fun m st => Function.update m st.1 st.2) m

/-- A read of `size` bytes has written the buffer and nothing else, with consecutive bytes of the
stream that come after some that have been dropped. -/
structure Filled (buf : x.Word) (size : ℕ) (r : ReadRun x) : Prop where
  written : ∀ a, a ∈ r.stores.map Prod.fst ↔ ∃ i < size, a = buf + BitVec.ofNat _ i
  content : ∃ dummy data rest, r.received = dummy ++ (data ++ rest) ∧ data.length = size ∧
    ∀ m, ∀ i < size, afterStores m r.stores (buf + BitVec.ofNat _ i) = data.getD i 0#8

variable {buf a : x.Word} {data dummy rest l : List U8} {b : U8} {n i j : ℕ}

theorem storesOf_append : storesOf buf (data ++ l) =
    storesOf buf data ++ l.mapIdx fun i b => (buf + BitVec.ofNat _ (data.length + i), b) := by
  rw [storesOf, storesOf, List.mapIdx_append]
  simp only [Nat.add_comm]

theorem storesOf_concat : storesOf buf (data ++ [b]) =
    storesOf buf data ++ [(buf + BitVec.ofNat _ data.length, b)] := by
  rw [storesOf_append]
  rfl

theorem mem_storesOf :
    a ∈ (storesOf buf data).map Prod.fst ↔ ∃ i < data.length, a = buf + BitVec.ofNat _ i := by
  simp [storesOf, List.mem_mapIdx, eq_comm]

/-- Addresses in a buffer are apart. -/
theorem buf_add_inj (hi : i < 2 ^ 32) (hj : j < 2 ^ 32) :
    buf + BitVec.ofNat _ i = buf + BitVec.ofNat _ j ↔ i = j := by
  refine ⟨fun h => ?_, fun h => h ▸ rfl⟩
  have hpow : 2 ^ 32 ≤ 2 ^ (8 * x.hart8) := Nat.pow_le_pow_right (by decide) x.le_bits
  have heq := congrArg BitVec.toNat (add_left_cancel h)
  rwa [BitVec.toNat_ofNat, BitVec.toNat_ofNat, Nat.mod_eq_of_lt (by omega),
    Nat.mod_eq_of_lt (by omega)] at heq

theorem afterStores_concat (m : x.Word → U8) (stores : List (x.Word × U8)) :
    afterStores m (stores ++ [(a, b)]) = Function.update (afterStores m stores) a b := by
  rw [afterStores, List.foldl_append]
  rfl

/-- What has been stored is there: with at most `2 ^ 32` bytes none of the stores falls on the place
of another one. -/
theorem afterStores_storesOf (m : x.Word → U8) (hlen : data.length ≤ 2 ^ 32)
    (hi : i < data.length) :
    afterStores m (storesOf buf data) (buf + BitVec.ofNat _ i) = data.getD i 0#8 := by
  induction data using List.reverseRecOn generalizing i with
  | nil => cases hi
  | append_singleton data b ih =>
    rw [List.length_append, List.length_singleton] at hlen hi
    rw [storesOf_concat, afterStores_concat]
    rcases Nat.lt_succ_iff_lt_or_eq.mp hi with hlt | rfl
    · have hne : i ≠ data.length := hlt.ne
      rw [Function.update_of_ne fun h => hne ((buf_add_inj (by omega) (by omega)).mp h),
        ih (by omega) hlt, List.getD_append _ _ _ _ hlt]
    · rw [Function.update_self, List.getD_append_right _ _ _ _ le_rfl, Nat.sub_self]
      rfl

/-- A buffer is filled when as many bytes have been stored as it has. The stores are consecutive
from its start on, so that only their number is in question. -/
theorem filled_iff {size : ℕ} {r : ReadRun x} (hstores : r.stores = storesOf buf data)
    (hreceived : r.received = dummy ++ (data ++ rest)) (hlen : data.length ≤ size)
    (hsize : size < 2 ^ 32) : Filled buf size r ↔ data.length = size := by
  constructor
  · intro h
    by_contra hne
    have hlast : buf + BitVec.ofNat _ (size - 1) ∈ r.stores.map Prod.fst :=
      (h.written _).mpr ⟨size - 1, by omega, rfl⟩
    rw [hstores, mem_storesOf] at hlast
    obtain ⟨i, hi, heq⟩ := hlast
    rw [buf_add_inj (by omega) (by omega)] at heq
    omega
  · rintro rfl
    refine ⟨fun a => ?_, dummy, data, rest, hreceived, rfl, fun m i hi => ?_⟩
    · rw [hstores, mem_storesOf]
    · rw [hstores, afterStores_storesOf m hsize.le hi]

/-! ## Cursors -/

/-- The bytes `dummy` have been dropped, and `data` stored. -/
structure ReadCursor.At (buf : x.Word) (dummy data : List U8) (c : ReadCursor x) : Prop where
  ptr : c.ptr = buf + BitVec.ofNat _ data.length
  stores : c.stores = storesOf buf data
  received : c.received = dummy ++ data

variable {c : ReadCursor x}

theorem ReadCursor.At.start (opCnt : x.Word) : ReadCursor.At buf [] [] ⟨opCnt, buf, [], []⟩ :=
  ⟨(BitVec.add_zero buf).symm, rfl, rfl⟩

theorem ReadCursor.At.skip (h : ReadCursor.At buf dummy [] c) :
    ReadCursor.At buf (dummy ++ [b]) [] (c.skip b) := by
  obtain ⟨hptr, hstores, hreceived⟩ := h
  refine ⟨hptr, hstores, ?_⟩
  rw [ReadCursor.skip, hreceived, List.append_nil, List.append_nil]

theorem ReadCursor.At.store (h : ReadCursor.At buf dummy data c) :
    ReadCursor.At buf dummy (data ++ [b]) (c.store b) := by
  obtain ⟨hptr, hstores, hreceived⟩ := h
  refine ⟨?_, ?_, ?_⟩
  · rw [ReadCursor.store, hptr, List.length_append, List.length_singleton, BitVec.ofNat_add,
      add_assoc]
  · rw [ReadCursor.store, hptr, hstores, storesOf_concat]
  · rw [ReadCursor.store, hreceived, List.append_assoc]

theorem ReadCursor.At.count (h : ReadCursor.At buf dummy data c) :
    ReadCursor.At buf dummy data c.count :=
  ⟨h.ptr, h.stores, h.received⟩

/-- A counter below a size. -/
theorem opCnt_lt_size (size : U32) (hn : n ≤ size.toNat) :
    BitVec.ofNat (8 * x.hart8) n < size.setWidth _ ↔ n < size.toNat := by
  have hpow : 2 ^ 32 ≤ 2 ^ (8 * x.hart8) := Nat.pow_le_pow_right (by decide) x.le_bits
  have hsize := size.isLt
  rw [BitVec.lt_def, BitVec.toNat_ofNat, BitVec.toNat_setWidth, Nat.mod_eq_of_lt (by omega),
    Nat.mod_eq_of_lt (by omega)]

/-! ## The loops of the fast read -/

section

variable {s : Xqspi}

/-- The dummy cycles. -/
theorem total_dummyLoop [NvramPlf] (buf : x.Word) :
    Total (byteLoop (fun (i, _) => decide (i ≤ 5)) (fun (i, c) b => (i + 1, c.skip b))
      (0, (⟨0#_, buf, [], []⟩ : ReadCursor x))) s fun r _ =>
        r.2.opCnt = 0#_ ∧ ∃ dummy, r.2.At buf dummy [] := by
  refine (total_byteLoop (fun r => r.2.opCnt = 0#_ ∧ ∃ dummy, r.2.At buf dummy [])
    (fun r => 6 - r.1) ?_ ⟨rfl, [], .start _⟩).mono fun _ _ h => h.1
  rintro ⟨i, c⟩ b ⟨hcnt, dummy, hat⟩ hcond
  have hi : i ≤ 5 := of_decide_eq_true hcond
  refine ⟨⟨hcnt, _, hat.skip⟩, ?_⟩
  change 6 - (i + 1) < 6 - i
  omega

/-- The head, byte by byte, up to the next address that is a multiple of 8, or up to the size where
that comes first. -/
theorem total_headLoop [NvramPlf] {c : ReadCursor x} {head : ℕ} (size : U32) (hcnt : c.opCnt = 0#_)
    (hat : c.At buf dummy []) :
    Total (byteLoop (fun (i, c) => decide (0 < i ∧ c.opCnt < size.setWidth _))
      (fun (i, c) b => (i - 1, (c.store b).count)) (head, c)) s fun r _ =>
        ∃ data, r.2.At buf dummy data ∧ data.length = min head size.toNat ∧
          r.2.opCnt = BitVec.ofNat _ data.length := by
  refine (total_byteLoop (fun r => ∃ data, r.2.At buf dummy data ∧ r.1 + data.length = head ∧
    data.length ≤ size.toNat ∧ r.2.opCnt = BitVec.ofNat _ data.length) (fun r => r.1) ?_
    ⟨[], hat, rfl, Nat.zero_le _, hcnt⟩).mono ?_
  · rintro ⟨i, c⟩ b ⟨data, hat, hsum, hle, hcnt⟩ hcond
    obtain ⟨hi, hlt⟩ := of_decide_eq_true hcond
    dsimp only at hi hlt hsum hcnt
    rw [hcnt, opCnt_lt_size size hle] at hlt
    refine ⟨⟨data ++ [b], hat.store.count, ?_, ?_, ?_⟩, by dsimp only; omega⟩
    · rw [List.length_append, List.length_singleton]
      dsimp only
      omega
    · rw [List.length_append, List.length_singleton]
      omega
    · change c.opCnt + 1#_ = _
      rw [hcnt, List.length_append, List.length_singleton, BitVec.ofNat_add]
  · rintro ⟨i, c⟩ _ ⟨⟨data, hat, hsum, hle, hcnt⟩, hexit⟩
    refine ⟨data, hat, ?_, hcnt⟩
    dsimp only at hsum hcnt hexit
    rw [decide_eq_true_eq, hcnt, opCnt_lt_size size hle] at hexit
    omega

/-! ## Words -/

/-- `data` has been stored, and `pending` waits for the rest of its word. -/
structure WordCursor.At (buf : x.Word) (dummy : List U8) (head : ℕ) (data pending : List U8)
    (c : WordCursor x) : Prop where
  ptr : c.cur.ptr = buf + BitVec.ofNat _ data.length
  stores : c.cur.stores = storesOf buf data
  received : c.cur.received = dummy ++ (data ++ pending)
  opCnt : c.cur.opCnt = BitVec.ofNat _ (data.length + pending.length)
  wcnt : c.wcnt = pending.length
  lt : pending.length < x.hart8
  wdata : c.wdata = (leWord (fun i => pending.getD i 0#8) pending.length).setWidth _
  whole : ∃ q, data.length = head + x.hart8 * q

variable {c : WordCursor x} {pending : List U8} {head : ℕ}

/-- The word with a byte more. -/
theorem wdata_or (b : U8) (pending : List U8) :
    (leWord (fun i => pending.getD i 0#8) pending.length).setWidth (8 * x.hart8) |||
        (b.setWidth _ <<< (pending.length * 8)) =
      (leWord (fun i => (pending ++ [b]).getD i 0#8) (pending.length + 1)).setWidth _ := by
  have hlast : (pending ++ [b]).getD pending.length 0#8 = b := by
    rw [List.getD_append_right _ _ _ _ le_rfl, Nat.sub_self]
    rfl
  rw [← setWidth_leWord_or, hlast, Nat.mul_comm pending.length]
  congr 2
  exact leWord_congr fun i hi => (List.getD_append _ _ _ _ hi).symm

/-- The stores of a word that is complete. -/
theorem stores_word (hlen : l.length = x.hart8) :
    ((List.range x.hart8).map fun k => (buf + BitVec.ofNat _ data.length + BitVec.ofNat _ k,
        byteOf ((leWord (fun i => l.getD i 0#8) l.length).setWidth (8 * x.hart8)) k)) =
      l.mapIdx fun i b => (buf + BitVec.ofNat _ (data.length + i), b) := by
  refine List.ext_getElem (by simp [hlen]) fun k hk hk' => ?_
  rw [List.length_mapIdx] at hk'
  have hbyte := byteOf_setWidth_leWord (w := 8 * x.hart8) (fun i => l.getD i 0#8) hk' (by omega)
  rw [List.getElem_map, List.getElem_range, List.getElem_mapIdx, hbyte, BitVec.ofNat_add,
    BitVec.add_assoc, List.getD_eq_getElem _ _ hk']

theorem WordCursor.At.next (h : WordCursor.At buf dummy head data pending c) (b : U8) :
    ∃ data' pending', WordCursor.At buf dummy head data' pending' (c.next b) ∧
      data'.length + pending'.length = data.length + pending.length + 1 := by
  obtain ⟨hptr, hstores, hreceived, hcnt, hwcnt, hlt, hwdata, q, hq⟩ := h
  have hlen : (pending ++ [b]).length = pending.length + 1 := by
    rw [List.length_append, List.length_singleton]
  have hword := wdata_or (x := x) b pending
  rw [← hwdata, ← hlen, ← hwcnt] at hword
  have hsum : c.cur.opCnt + 1#_ = BitVec.ofNat _ (data.length + (pending ++ [b]).length) := by
    rw [hcnt, hlen, ← BitVec.ofNat_add, Nat.add_assoc]
  have hstream : c.cur.received ++ [b] = dummy ++ (data ++ (pending ++ [b])) := by
    simp [hreceived]
  rw [WordCursor.next, hword]
  by_cases hfull : c.wcnt = x.hart8 - 1
  · have hbytes : (pending ++ [b]).length = x.hart8 := by omega
    rw [if_pos hfull]
    refine ⟨data ++ (pending ++ [b]), [], ⟨?_, ?_, ?_, ?_, rfl, ?_, rfl, q + 1, ?_⟩, ?_⟩
    · change c.cur.ptr + BitVec.ofNat _ x.hart8 = _
      rw [hptr, List.length_append, hbytes, BitVec.ofNat_add, BitVec.add_assoc]
    · change c.cur.stores ++ (List.range x.hart8).map (fun k =>
        (c.cur.ptr + BitVec.ofNat _ k, byteOf _ k)) = _
      rw [hstores, hptr, stores_word hbytes, storesOf_append]
    · change c.cur.received ++ [b] = _
      rw [hstream, List.append_nil]
    · change c.cur.opCnt + 1#_ = _
      rw [hsum, List.length_nil, Nat.add_zero, ← List.length_append]
    · rw [List.length_nil]
      omega
    · rw [List.length_append, hbytes, hq, Nat.mul_succ, Nat.add_assoc]
    · rw [List.length_append, List.length_nil, hlen]
      omega
  · rw [if_neg hfull]
    refine ⟨data, pending ++ [b], ⟨hptr, hstores, hstream, hsum, ?_, ?_, rfl, q, hq⟩, ?_⟩
    · change c.wcnt + 1 = _
      rw [hwcnt, hlen]
    · omega
    · rw [hlen, Nat.add_assoc]

/-- The rest, word by word. Bytes are collected in a variable until it is full: those of an
incomplete word at the end are counted, and are never stored. -/
theorem total_wordLoop [NvramPlf] {c : ReadCursor x} {size : U32} (hat : c.At buf dummy data)
    (hcnt : c.opCnt = BitVec.ofNat _ data.length) (hle : data.length ≤ size.toNat) :
    Total (byteLoop (fun c => decide (c.cur.opCnt < size.setWidth _)) WordCursor.next
      (⟨c, 0, 0#_⟩ : WordCursor x)) s fun r _ => ∃ data' pending,
        WordCursor.At buf dummy data.length data' pending r ∧
          data'.length + pending.length = size.toNat := by
  have hstart : WordCursor.At buf dummy data.length data [] (⟨c, 0, 0#_⟩ : WordCursor x) := by
    refine ⟨hat.ptr, hat.stores, ?_, hcnt, rfl, ?_, ?_, 0, rfl⟩
    · rw [hat.received, List.append_nil]
    · cases x <;> decide
    · simp [leWord]
  refine (total_byteLoop (fun r => ∃ data' pending,
    WordCursor.At buf dummy data.length data' pending r ∧
      data'.length + pending.length ≤ size.toNat) (fun r => size.toNat - r.cur.opCnt.toNat) ?_
    ⟨data, [], hstart, hle⟩).mono ?_
  · rintro r b ⟨data', pending, hat, hle⟩ hcond
    have hlt := of_decide_eq_true hcond
    rw [hat.opCnt, opCnt_lt_size size hle] at hlt
    obtain ⟨data'', pending', hat', hsum⟩ := hat.next b
    refine ⟨⟨data'', pending', hat', by omega⟩, ?_⟩
    have hpow : 2 ^ 32 ≤ 2 ^ (8 * x.hart8) := Nat.pow_le_pow_right (by decide) x.le_bits
    have hsize := size.isLt
    rw [hat.opCnt, hat'.opCnt, BitVec.toNat_ofNat, BitVec.toNat_ofNat, Nat.mod_eq_of_lt (by omega),
      Nat.mod_eq_of_lt (by omega)]
    omega
  · rintro r _ ⟨⟨data', pending, hat, hle⟩, hexit⟩
    refine ⟨data', pending, hat, ?_⟩
    rw [decide_eq_true_eq, hat.opCnt, opCnt_lt_size size hle] at hexit
    omega

/-! ## The loop of the quad read -/

/-- In the loop: nine bytes are dropped before the first is stored. -/
structure QuadAt (buf limit : x.Word) (dummy data : List U8) (c : ReadCursor x) : Prop where
  cursor : c.At buf dummy data
  opCnt : c.opCnt = BitVec.ofNat _ (dummy.length + data.length)
  skipped : dummy.length ≤ 9
  stored : data = [] ∨ dummy.length = 9
  below : dummy.length + data.length ≤ limit.toNat

section

variable {limit : x.Word} {c : ReadCursor x}

theorem QuadAt.toNat_opCnt (h : QuadAt buf limit dummy data c) :
    c.opCnt.toNat = dummy.length + data.length := by
  have hle := h.below
  have hfits := limit.isLt
  rw [h.opCnt, BitVec.toNat_ofNat, Nat.mod_eq_of_lt (by omega)]

theorem le_eight_iff {v : x.Word} : v ≤ 8#_ ↔ v.toNat ≤ 8 := by
  have height : (8#(8 * x.hart8)).toNat = 8 := by cases x <;> rfl
  rw [BitVec.le_def, height]

/-- One of the first nine bytes is dropped. There should be eight: the comparison with the number of
dummy cycles includes it. -/
theorem QuadAt.skip (h : QuadAt buf limit dummy data c) (hlt : c.opCnt < limit)
    (hskip : c.opCnt ≤ 8#_) : QuadAt buf limit (dummy ++ [b]) [] (c.skip b).count := by
  have htoNat := h.toNat_opCnt
  rw [le_eight_iff] at hskip
  obtain rfl : data = [] := h.stored.resolve_right (by omega)
  have hlen : (dummy ++ [b]).length + ([] : List U8).length = dummy.length + 1 := by
    rw [List.length_append, List.length_singleton, List.length_nil]
  rw [List.length_nil] at htoNat
  rw [BitVec.lt_def] at hlt
  refine ⟨h.cursor.skip.count, ?_, ?_, .inl rfl, ?_⟩
  · rw [hlen, BitVec.ofNat_add, ← Nat.add_zero dummy.length]
    exact congrArg (· + 1#_) h.opCnt
  · rw [List.length_append, List.length_singleton]
    omega
  · rw [hlen]
    omega

/-- One of the bytes after them. -/
theorem QuadAt.store (h : QuadAt buf limit dummy data c) (hlt : c.opCnt < limit)
    (hskip : ¬ c.opCnt ≤ 8#_) : QuadAt buf limit dummy (data ++ [b]) (c.store b).count := by
  have htoNat := h.toNat_opCnt
  rw [le_eight_iff] at hskip
  have hnine : dummy.length = 9 := by
    rcases h.stored with rfl | hnine
    · have hdummy := h.skipped
      rw [List.length_nil] at htoNat
      omega
    · exact hnine
  have hlen : dummy.length + (data ++ [b]).length = dummy.length + data.length + 1 := by
    rw [List.length_append, List.length_singleton, Nat.add_assoc]
  rw [BitVec.lt_def] at hlt
  refine ⟨h.cursor.store.count, ?_, h.skipped, .inr hnine, ?_⟩
  · rw [hlen, BitVec.ofNat_add]
    exact congrArg (· + 1#_) h.opCnt
  · rw [hlen]
    omega

end

/-- The dummy bytes and the data, in one loop. On RV32 its limit, which is the size and eight, may
wrap, and then nothing is stored. -/
theorem total_quadLoop [NvramPlf] (buf : x.Word) (size : U32) :
    Total (byteLoop (fun c => decide (c.opCnt < size.setWidth _ + 8#_))
      (fun c b => if c.opCnt ≤ 8#_ then (c.skip b).count else (c.store b).count)
      (⟨0#_, buf, [], []⟩ : ReadCursor x)) s fun c _ =>
        ∃ dummy data, c.At buf dummy data ∧ (data = [] ∨ data.length < size.toNat) := by
  obtain ⟨limit, hlimit⟩ : ∃ limit : x.Word, limit = size.setWidth _ + 8#_ := ⟨_, rfl⟩
  have hle : limit.toNat ≤ size.toNat + 8 := by
    rw [hlimit, BitVec.toNat_add, BitVec.toNat_setWidth, BitVec.toNat_ofNat]
    exact (Nat.mod_le _ _).trans (Nat.add_le_add (Nat.mod_le _ _) (Nat.mod_le _ _))
  rw [← hlimit]
  refine (total_byteLoop (fun c => ∃ dummy data, QuadAt buf limit dummy data c)
    (fun c => limit.toNat - c.opCnt.toNat) ?_
    ⟨[], [], .start _, rfl, Nat.zero_le _, .inl rfl, Nat.zero_le _⟩).mono ?_
  · rintro c b ⟨dummy, data, h⟩ hcond
    have hlt : c.opCnt < limit := of_decide_eq_true hcond
    have hmeasure : limit.toNat - (c.opCnt + 1#_).toNat < limit.toNat - c.opCnt.toNat := by
      rw [BitVec.lt_def] at hlt
      rw [toNat_add_one hlt limit.isLt]
      omega
    by_cases hskip : c.opCnt ≤ 8#_
    · rw [if_pos hskip]
      exact ⟨⟨_, _, h.skip hlt hskip⟩, hmeasure⟩
    · rw [if_neg hskip]
      exact ⟨⟨_, _, h.store hlt hskip⟩, hmeasure⟩
  · rintro c _ ⟨⟨dummy, data, h⟩, _⟩
    have hsum := h.below
    exact ⟨dummy, data, h.cursor, h.stored.imp_right fun hnine => by omega⟩

/-! ## The functions -/

/-- **The fast read** returns the size, with the buffer filled if no word is left incomplete. It
ends with any controller that goes on sending. -/
theorem total_xqspiFlashFastRead [NvramPlf] (startAddr buf : x.Word) (size : U32) (s : Xqspi) :
    Total (xqspiFlashFastRead startAddr buf size) s fun r _ => r.ret = size ∧
      (Filled buf size.toNat r ↔ (size.toNat - headBytes buf) % x.hart8 = 0) := by
  rw [xqspiFlashFastRead]
  refine total_xqspiReset_any.bind ?_
  rintro _ s ⟨hcr, htx⟩
  refine (total_xqspiInit htx (.inr hcr)).bind ?_
  rintro _ _ rfl
  refine (total_xqspiFlashGetJedecId_any rfl).bind ?_
  rintro _ s ⟨hcr, htx⟩
  refine (total_xqspiResetTxRxFifo htx (by simp [hcr])).bind ?_
  rintro _ t ht
  have hcr : t.cr = crStopped := by rw [ht, hcr]
  refine (total_xqspiTx32 hcr).bind fun _ s h => ?_
  refine (total_txAddr_flowing h.cr).bind fun _ s h => ?_
  refine total_readCommand h (by decide) (by decide) fun status s hstatus => ?_
  rw [if_neg (not_not.mpr hstatus)]
  refine (total_dummyLoop buf).bind ?_
  rintro ⟨_, c₀⟩ s ⟨hcnt, dummy, hat₀⟩
  have hptr : c₀.ptr = buf := hat₀.ptr.trans (BitVec.add_zero buf)
  refine (total_headLoop size hcnt hat₀).bind ?_
  rintro ⟨_, c⟩ s ⟨data, hat, hlen, hcnt⟩
  rw [hptr] at hlen
  refine (total_wordLoop hat hcnt (by omega)).bind ?_
  rintro c s ⟨data', pending, hat', hsum⟩
  refine total_xqspiStop_any.bind fun _ _ _ => Total.pure ⟨rfl, ?_⟩
  obtain ⟨q, hq⟩ := hat'.whole
  have hlt := hat'.lt
  rw [filled_iff hat'.stores hat'.received (by omega) size.isLt]
  have hmod : (size.toNat - headBytes buf) % x.hart8 = pending.length := by
    rcases Nat.le_total (headBytes buf) size.toNat with hle | hle
    · have hdiff : size.toNat - headBytes buf = x.hart8 * q + pending.length := by omega
      rw [hdiff, Nat.mul_add_mod, Nat.mod_eq_of_lt hlt]
    · have hzero : pending.length = 0 := by omega
      rw [Nat.sub_eq_zero_of_le hle, Nat.zero_mod, hzero]
  rw [hmod]
  omega

/-- What the quad read makes of the control register. -/
theorem quad_control (v : U32) (c : U32)
    (hc : c = (v ||| (xspCrTxfifoResetMask ||| xspCrRxfifoResetMask ||| xspCrEnableMask |||
      xspCrMasterModeMask)) &&& ~~~(xspCrTxfifoResetMask ||| xspCrRxfifoResetMask)) :
    NoReset c ∧ c &&& xspCrMasterModeMask = xspCrMasterModeMask := by
  constructor
  · rw [NoReset, hc, BitVec.and_assoc]
    have hnot : ~~~(xspCrTxfifoResetMask ||| xspCrRxfifoResetMask) &&&
        (xspCrTxfifoResetMask ||| xspCrRxfifoResetMask) = 0#32 := by decide
    rw [hnot, BitVec.and_zero]
  · have hmaster : xspCrMasterModeMask = 1#32 <<< 2 := by decide
    have hbit : c.getLsbD 2 = true := by
      simp [hc, xspCrTxfifoResetMask, xspCrRxfifoResetMask, xspCrEnableMask, xspCrMasterModeMask]
    rw [hmaster, Words.and_one_shiftLeft (by decide), hbit]
    decide

/-- **The quad read** returns the size, with a byte of the buffer left out: it drops one byte too
many, and its loop counts to the end all the same. -/
theorem total_xqspiFlashQuadRead [NvramPlf] (startAddr buf : x.Word) (size : U32) (s : Xqspi) :
    Total (xqspiFlashQuadRead startAddr buf size) s fun r _ => r.ret = size ∧
      (Filled buf size.toNat r ↔ size = 0#32) := by
  rw [xqspiFlashQuadRead]
  simp only [xqspiGetCtrlReg, xqspiSetCtrlReg, xqspiReadReg32, xqspiWriteReg32]
  refine Total.bind (P := fun _ _ => True)
    (total_access steady_true trivial fun _ _ => trivial) fun v s _ => ?_
  refine Total.bind (P := fun _ t => NoReset t.cr ∧
      t.cr &&& xspCrMasterModeMask = xspCrMasterModeMask)
    (total_access steady_true trivial fun t _ => quad_control v _ rfl) ?_
  rintro _ s ⟨hreset, hmaster⟩
  have hstatus : Total xqspiGetStatusReg s fun _ t => t.cr = s.cr := by
    rw [xqspiGetStatusReg, xqspiReadReg32]
    exact total_access (steady_cr s.cr) rfl fun t ht => ht
  refine hstatus.bind fun _ t hcr => ?_
  refine (total_xqspiTx32 hcr).bind fun _ t h => ?_
  refine (total_txAddr_flowing h.cr).bind fun _ t h => ?_
  refine (total_xqspiTx32 h.cr).bind fun _ t h => ?_
  refine (total_xqspiTx32 h.cr).bind fun _ t h => ?_
  refine (total_xqspiTx32 h.cr).bind fun _ t h => ?_
  refine total_readCommand h hreset hmaster fun status t hstatus => ?_
  rw [if_neg (not_not.mpr hstatus)]
  refine (total_quadLoop buf size).bind ?_
  rintro c t ⟨dummy, data, hat, hdata⟩
  refine total_xqspiStop_any.bind fun _ _ _ => Total.pure ⟨rfl, ?_⟩
  have hsize : size = 0#32 ↔ size.toNat = 0 := by
    rw [← BitVec.toNat_inj, BitVec.toNat_ofNat, Nat.zero_mod]
  have hreceived : c.received = dummy ++ (data ++ []) := by rw [List.append_nil, hat.received]
  have hle : data.length ≤ size.toNat := by
    rcases hdata with rfl | hdata
    · exact Nat.zero_le _
    · omega
  rw [filled_iff hat.stores hreceived hle size.isLt, hsize]
  rcases hdata with rfl | hdata
  · rw [List.length_nil]
    omega
  · omega

/-- **A read fills its buffer** exactly if, for the fast read, whole words are left after the bytes
up to the next multiple of 8; and for the quad read, if nothing is asked for. Both return the size
that they have been asked for. -/
theorem flash_read_fills_iff [NvramPlf] (startAddr buf : x.Word) (size : U32) (s : Xqspi) :
    Total (xqspiFlashFastRead startAddr buf size) s (fun r _ => r.ret = size ∧
      (Filled buf size.toNat r ↔ (size.toNat - headBytes buf) % x.hart8 = 0)) ∧
    Total (xqspiFlashQuadRead startAddr buf size) s (fun r _ => r.ret = size ∧
      (Filled buf size.toNat r ↔ size = 0#32)) :=
  ⟨total_xqspiFlashFastRead startAddr buf size s, total_xqspiFlashQuadRead startAddr buf size s⟩

/-- One byte, to a buffer at a multiple of 8: neither function stores it. -/
theorem flash_read_not_filled :
    letI := NvramPlf.first
    Total (xqspiFlashFastRead (x := .rv64) 0#64 0x80000000#64 1#32) Xqspi.afterPowerOn
      (fun r _ => r.ret = 1#32 ∧ ¬ Filled (x := .rv64) 0x80000000#64 1 r) ∧
    Total (xqspiFlashQuadRead (x := .rv64) 0#64 0x80000000#64 1#32) Xqspi.afterPowerOn
      (fun r _ => r.ret = 1#32 ∧ ¬ Filled (x := .rv64) 0x80000000#64 1 r) := by
  let _ := NvramPlf.first
  refine ⟨(total_xqspiFlashFastRead _ _ _ _).mono ?_, (total_xqspiFlashQuadRead _ _ _ _).mono ?_⟩
  · rintro r _ ⟨hret, hfilled⟩
    exact ⟨hret, mt hfilled.mp (by decide)⟩
  · rintro r _ ⟨hret, hfilled⟩
    exact ⟨hret, mt hfilled.mp (by decide)⟩

end

end ScBl
