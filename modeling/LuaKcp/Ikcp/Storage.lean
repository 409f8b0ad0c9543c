import LuaKcp.Ikcp.Outstanding
import LuaKcp.Ikcp.Reassembly

/-!
# What a control block can store

The receiving side is fed segments with any numbers. Those that it keeps in `rcv_buf` have different
numbers, in order, all of them inside the window that starts at `rcv_nxt` (`Stored`): the search of
`ikcp_parse_data`, which compares numbers through the sign of their difference, is only ever made
among numbers so close that it is faithful. Together with `Ikcpcb.Outstanding` this bounds every
buffer but `snd_queue` and the ack list by a window. What the sending side holds are data segments
whose lengths fit their field (`Ikcpcb.Queued`).
-/

namespace LuaKcp.Ikcp

/-- How far a number is above the one expected next. -/
def ahead (nxt sn : U32) : ℕ := (sn - nxt).toNat

/-- `rcv_queue` is no longer than the window, and the segments of `rcv_buf` rise inside it. -/
structure Stored (side : RecvSide) : Prop where
  queue : side.rcvQueue.length ≤ side.rcvWnd.toNat
  sorted : side.rcvBuf.Pairwise fun a b => ahead side.rcvNxt a.sn < ahead side.rcvNxt b.sn
  window : ∀ seg ∈ side.rcvBuf, ahead side.rcvNxt seg.sn < side.rcvWnd.toNat

theorem eq_of_ahead {nxt a b : U32} (h : ahead nxt a = ahead nxt b) : a = b := by
  have hsub : a - nxt = b - nxt := BitVec.eq_of_toNat_eq h
  rw [← BitVec.sub_add_cancel a nxt, hsub, BitVec.sub_add_cancel]

/-- The window test of `ikcp_parse_data`, whatever the number. -/
theorem ahead_lt_of_window {nxt wnd sn : U32} (hW : wnd.toNat ≤ 2 ^ 30)
    (h : ¬ (itimediff sn (nxt + wnd) ≥ 0 ∨ itimediff sn nxt < 0)) : ahead nxt sn < wnd.toNat := by
  obtain ⟨hbelow, habove⟩ := not_or.mp h
  have hlt : 2 * (sn - nxt).toNat < 2 ^ 32 := by
    have hint : 0 ≤ (sn - nxt).toInt := not_lt.mp habove
    rw [BitVec.toInt_eq_toNat_cond] at hint
    split_ifs at hint with hhalf
    · exact hhalf
    · have := (sn - nxt).isLt
      omega
  have hwnd : nxt + wnd - nxt = wnd := by rw [BitVec.add_comm, BitVec.add_sub_cancel]
  have hdiff := serialDiff_above (c := nxt) hlt (b := nxt + wnd) (by rw [hwnd]; omega)
  rw [hwnd] at hdiff
  unfold itimediff at hbelow
  unfold ahead
  omega

theorem itimediff_eq_ahead {nxt a b : U32} (ha : ahead nxt a < 2 ^ 30) (hb : ahead nxt b < 2 ^ 30) :
    itimediff a b = (ahead nxt a : ℤ) - ahead nxt b := by
  unfold ahead at *
  exact serialDiff_above (by omega) (by omega)

/-- The number expected next moves up by one. -/
theorem ahead_succ {nxt sn : U32} (h : 0 < ahead nxt sn) :
    ahead nxt sn = ahead (nxt + 1) sn + 1 := by
  have hsub : sn - nxt = sn - (nxt + 1) + 1 := by
    rw [BitVec.sub_eq_iff_eq_add, BitVec.add_assoc, BitVec.add_comm 1 nxt, BitVec.sub_add_cancel]
  unfold ahead at *
  have hone : (1 : U32).toNat = 1 := rfl
  have hadd : (sn - nxt).toNat = ((sn - (nxt + 1)).toNat + 1) % 2 ^ 32 := by
    rw [hsub, BitVec.toNat_add, hone]
  have hlt := (sn - (nxt + 1)).isLt
  omega

/-! ## The search for the place of a new segment -/

/-- The buffer read from its tail stays sorted, whatever is inserted. -/
theorem insertLoop_sorted {nxt : U32} {W : ℕ} (hW : W ≤ 2 ^ 30) {newseg : Ikcpseg}
    (hnew : ahead nxt newseg.sn < W) {buf buf' : List Ikcpseg}
    (hsorted : buf.Pairwise fun a b => ahead nxt b.sn < ahead nxt a.sn)
    (hwindow : ∀ seg ∈ buf, ahead nxt seg.sn < W) (h : insertLoop newseg buf = some buf') :
    buf'.Pairwise fun a b => ahead nxt b.sn < ahead nxt a.sn := by
  induction buf generalizing buf' with
  | nil =>
    obtain rfl := Option.some.inj h
    exact List.pairwise_singleton _ _
  | cons seg buf ih =>
    obtain ⟨hbelow, hrest⟩ := List.pairwise_cons.mp hsorted
    have hseg := hwindow seg List.mem_cons_self
    have hdiff := itimediff_eq_ahead (hnew.trans_le hW) (hseg.trans_le hW)
    unfold insertLoop at h
    split_ifs at h with heq hgt
    · obtain rfl := Option.some.inj h
      refine List.pairwise_cons.mpr ⟨fun b hb => ?_, hsorted⟩
      rcases List.mem_cons.mp hb with rfl | hb
      · omega
      · have := hbelow b hb
        omega
    · obtain ⟨rest, hrest', rfl⟩ := Option.map_eq_some_iff.mp h
      refine List.pairwise_cons.mpr ⟨fun b hb => ?_,
        ih hrest (fun seg' h' => hwindow seg' (List.mem_cons_of_mem seg h')) hrest'⟩
      rcases mem_of_insertLoop hrest' hb with rfl | hb
      · -- the new segment goes below this one, and has another number
        have hne : ahead nxt seg.sn ≠ ahead nxt b.sn := fun he => heq (eq_of_ahead he)
        omega
      · exact hbelow b hb

namespace Stored

variable {kcp : Ikcpcb}

/-- Moving segments on keeps what is stored in order, and leaves nothing that could be moved. -/
theorem moveLoop {wnd : U32} {buf que : List Ikcpseg} {nxt : U32}
    (h : Stored ⟨nxt, wnd, que, buf⟩) :
    Stored ⟨(Ikcp.moveLoop wnd buf que nxt).2.2, wnd, (Ikcp.moveLoop wnd buf que nxt).2.1,
        (Ikcp.moveLoop wnd buf que nxt).1⟩ ∧
      Settled ⟨(Ikcp.moveLoop wnd buf que nxt).2.2, wnd, (Ikcp.moveLoop wnd buf que nxt).2.1,
        (Ikcp.moveLoop wnd buf que nxt).1⟩ := by
  induction buf generalizing que nxt with
  | nil => exact ⟨h, by simp [Settled, Ikcp.moveLoop]⟩
  | cons seg buf ih =>
    unfold Ikcp.moveLoop
    split_ifs with hmove
    · obtain ⟨hsn, hlen⟩ := hmove
      obtain ⟨habove, hrest⟩ := List.pairwise_cons.mp h.sorted
      dsimp only at habove hrest
      have hpos : ∀ seg' ∈ buf, 0 < ahead nxt seg'.sn := fun seg' h' =>
        (Nat.zero_le _).trans_lt (habove seg' h')
      refine ih ⟨?_, ?_, fun seg' h' => ?_⟩
      · change (que ++ [seg]).length ≤ wnd.toNat
        rw [List.length_append]
        exact hlen
      · refine hrest.imp_of_mem fun {a b} ha hb hlt => ?_
        have ha := ahead_succ (hpos a ha)
        have hb := ahead_succ (hpos b hb)
        change ahead (nxt + 1) a.sn < ahead (nxt + 1) b.sn
        omega
      · have hwin : ahead nxt seg'.sn < wnd.toNat := h.window seg' (List.mem_cons_of_mem seg h')
        have hnext := ahead_succ (hpos seg' h')
        change ahead (nxt + 1) seg'.sn < wnd.toNat
        omega
    · refine ⟨h, fun seg' hseg' hsn => ?_⟩
      obtain rfl : seg = seg' := Option.some.inj hseg'
      exact not_lt.mp fun hlt => hmove ⟨hsn, hlt⟩

theorem moveAvailable (h : Stored kcp.recvSide) :
    Stored kcp.moveAvailable.recvSide ∧ Settled kcp.moveAvailable.recvSide := h.moveLoop

theorem parseData (h : Stored kcp.recvSide) (hset : Settled kcp.recvSide)
    (hW : kcp.rcvWnd.toNat ≤ 2 ^ 30) (newseg : Ikcpseg) :
    Stored (kcp.parseData newseg).recvSide ∧ Settled (kcp.parseData newseg).recvSide := by
  unfold Ikcpcb.parseData
  split_ifs with hout
  · exact ⟨h, hset⟩
  · have hnew := ahead_lt_of_window hW hout
    dsimp only
    refine moveAvailable ?_
    cases hins : insertLoop newseg kcp.rcvBuf.reverse with
    | none => exact h
    | some rev =>
      have hrev : kcp.rcvBuf.reverse.Pairwise
          fun a b => ahead kcp.rcvNxt b.sn < ahead kcp.rcvNxt a.sn :=
        List.pairwise_reverse.mpr h.sorted
      have hwindow : ∀ seg ∈ kcp.rcvBuf.reverse, ahead kcp.rcvNxt seg.sn < kcp.rcvWnd.toNat :=
        fun seg hseg => h.window seg (List.mem_reverse.mp hseg)
      refine ⟨h.queue, List.pairwise_reverse.mpr ?_, fun seg hseg => ?_⟩
      · exact insertLoop_sorted hW hnew hrev hwindow hins
      · rcases mem_of_insertLoop hins (List.mem_reverse.mp hseg) with rfl | hseg
        · exact hnew
        · exact hwindow seg hseg

theorem inputPush (h : Stored kcp.recvSide) (hset : Settled kcp.recvSide)
    (hW : kcp.rcvWnd.toNat ≤ 2 ^ 30) (seg : Ikcpseg) :
    Stored (kcp.inputPush seg).recvSide ∧ Settled (kcp.inputPush seg).recvSide := by
  unfold Ikcpcb.inputPush
  dsimp only
  split_ifs
  · have hacked : Stored (kcp.ackPush seg.sn seg.ts).recvSide := h
    have hset' : Settled (kcp.ackPush seg.sn seg.ts).recvSide := hset
    exact hacked.parseData hset' hW seg
  · exact ⟨h, hset⟩
  · exact ⟨h, hset⟩

theorem inputSegment (h : Stored kcp.recvSide) (hset : Settled kcp.recvSide)
    (hW : kcp.rcvWnd.toNat ≤ 2 ^ 30) (seg : Ikcpseg) :
    Stored (kcp.inputSegment seg).recvSide ∧ Settled (kcp.inputSegment seg).recvSide := by
  unfold Ikcpcb.inputSegment
  dsimp only
  set kcp₁ := (({ kcp with rmtWnd := seg.wnd } : Ikcpcb).parseUna seg.una).shrinkBuf with hkcp₁
  have h₁ : Stored kcp₁.recvSide := h
  have hset₁ : Settled kcp₁.recvSide := hset
  split_ifs
  · rw [Ikcpcb.recvSide_inputAck]
    exact ⟨h₁, hset₁⟩
  · exact h₁.inputPush hset₁ hW seg
  · exact ⟨h, hset⟩
  · exact ⟨h, hset⟩

/-- **Input of any bytes.** -/
theorem input (h : Stored kcp.recvSide) (hset : Settled kcp.recvSide)
    (hW : kcp.rcvWnd.toNat ≤ 2 ^ 30) (data : Bytes) :
    Stored (kcp.input data).2.recvSide ∧ Settled (kcp.input data).2.recvSide := by
  refine (Ikcpcb.input_rule (P := fun kcp' => kcp'.rcvWnd.toNat ≤ 2 ^ 30 ∧
    Stored kcp'.recvSide ∧ Settled kcp'.recvSide) (fun kcp' seg _ hk => ?_) (fun kcp' una hk => ?_)
    ⟨hW, h, hset⟩ data).2
  · exact ⟨by rw [Ikcpcb.rcvWnd_inputSegment]; exact hk.1, hk.2.1.inputSegment hk.2.2 hk.1 seg⟩
  · have hwnd : (kcp'.growCwnd una).rcvWnd = kcp'.rcvWnd :=
      congrArg RecvSide.rcvWnd (kcp'.recvSide_growCwnd una)
    rw [hwnd, Ikcpcb.recvSide_growCwnd]
    exact hk

theorem recv (h : Stored kcp.recvSide) (hset : Settled kcp.recvSide) (len : ℤ) :
    Stored (kcp.recv len).2.2.recvSide ∧ Settled (kcp.recv len).2.2.recvSide := by
  unfold Ikcpcb.recv
  split_ifs
  · exact ⟨h, hset⟩
  · exact ⟨h, hset⟩
  · exact ⟨h, hset⟩
  · dsimp only
    rw [Ikcpcb.recvSide_fastRecover]
    refine moveAvailable ?_
    unfold Ikcpcb.dropMerged
    split_ifs
    · exact h
    · exact ⟨(mergeLoop_suffix kcp.rcvQueue).length_le.trans h.queue, h.sorted, h.window⟩

/-- `rcv_buf` is no longer than the window. -/
theorem length_le (h : Stored kcp.recvSide) : kcp.rcvBuf.length ≤ kcp.rcvWnd.toNat := by
  have hnodup : (kcp.rcvBuf.map fun seg => ahead kcp.rcvNxt seg.sn).Nodup := by
    rw [List.nodup_iff_pairwise_ne, List.pairwise_map]
    exact h.sorted.imp fun hlt => hlt.ne
  have hsub : (kcp.rcvBuf.map fun seg => ahead kcp.rcvNxt seg.sn).toFinset ⊆
      Finset.range kcp.rcvWnd.toNat := fun i hi => by
    obtain ⟨seg, hseg, rfl⟩ := List.mem_map.mp (List.mem_toFinset.mp hi)
    exact Finset.mem_range.mpr (h.window seg hseg)
  have hcard := Finset.card_le_card hsub
  rwa [List.toFinset_card_of_nodup hnodup, Finset.card_range, List.length_map] at hcard

end Stored

namespace Ikcpcb

variable (kcp : Ikcpcb)

/-! ## What is waiting to be sent -/

/-- The segments of `snd_buf` are data segments, and no length leaves its field on the wire. -/
structure Queued : Prop where
  short : ∀ seg ∈ kcp.sndQueue ++ kcp.sndBuf, seg.data.length < 2 ^ 32
  push : ∀ seg ∈ kcp.sndBuf, seg.cmd = cmdPush

/-- What the move to `snd_buf` takes from the queue. -/
theorem mem_of_moveToBuf (wnd cwnd : U32) (que buf : List Ikcpseg) (nxt : U32) :
    (moveToBuf kcp wnd cwnd que buf nxt).1 <:+ que ∧
      ∀ seg ∈ (moveToBuf kcp wnd cwnd que buf nxt).2.1,
        seg ∈ buf ∨
          (seg.cmd = cmdPush ∧ seg.xmit = 0 ∧ ∃ newseg ∈ que, seg.data = newseg.data) := by
  induction que generalizing buf nxt with
  | nil => exact ⟨List.suffix_refl _, fun seg hseg => Or.inl hseg⟩
  | cons newseg que ih =>
    unfold moveToBuf
    split_ifs
    · obtain ⟨hsuf, hmem⟩ := ih (buf ++ [{ newseg with
        conv := kcp.conv, cmd := cmdPush, wnd := wnd, ts := kcp.current, sn := nxt,
        una := kcp.rcvNxt, resendts := kcp.current, rto := kcp.rxRto, fastack := 0, xmit := 0 }])
        (nxt + 1)
      refine ⟨hsuf.trans (List.suffix_cons newseg que), fun seg hseg => ?_⟩
      rcases hmem seg hseg with hbuf | ⟨hcmd, hxmit, old, hold, hdata⟩
      · rcases List.mem_append.mp hbuf with hbuf | hnew
        · exact Or.inl hbuf
        · rw [List.mem_singleton.mp hnew]
          exact Or.inr ⟨rfl, rfl, newseg, List.mem_cons_self, rfl⟩
      · exact Or.inr ⟨hcmd, hxmit, old, List.mem_cons_of_mem newseg hold, hdata⟩
    · exact ⟨List.suffix_refl _, fun seg hseg => Or.inl hseg⟩

theorem suffix_loaded : kcp.loaded.sndQueue <:+ kcp.sndQueue := by
  have hque : kcp.probed.sndQueue = kcp.sndQueue := congrArg SendSide.sndQueue kcp.sendSide_probed
  rw [← hque]
  exact (kcp.probed.mem_of_moveToBuf _ _ _ _ _).1

/-- The segments that a flush goes through: those of `snd_buf`, and new ones from the queue. -/
theorem mem_of_mem_loaded {seg : Ikcpseg} (h : seg ∈ kcp.loaded.sndBuf) : seg ∈ kcp.sndBuf ∨
    (seg.cmd = cmdPush ∧ seg.xmit = 0 ∧ ∃ newseg ∈ kcp.sndQueue, seg.data = newseg.data) := by
  have hque : kcp.probed.sndQueue = kcp.sndQueue := congrArg SendSide.sndQueue kcp.sendSide_probed
  have hbuf : kcp.probed.sndBuf = kcp.sndBuf := congrArg SendSide.sndBuf kcp.sendSide_probed
  rw [← hque, ← hbuf]
  exact (kcp.probed.mem_of_moveToBuf _ _ _ _ _).2 seg h

/-- The data that is to be sent, or sent again, is of a kind. -/
def Carries (P : Bytes → Prop) : Prop := ∀ seg ∈ kcp.sndQueue ++ kcp.sndBuf, P seg.data

namespace Carries

variable {kcp} {kcp' : Ikcpcb} {P : Bytes → Prop}

theorem loaded (h : kcp.Carries P) : kcp.loaded.Carries P := by
  intro seg hseg
  rcases List.mem_append.mp hseg with hseg | hseg
  · exact h seg (List.mem_append_left _ (kcp.suffix_loaded.subset hseg))
  · rcases kcp.mem_of_mem_loaded hseg with hold | ⟨-, -, newseg, hnew, hdata⟩
    · exact h seg (List.mem_append_right _ hold)
    · rw [hdata]
      exact h newseg (List.mem_append_left _ hnew)

theorem flush (h : kcp.Carries P) : kcp.flush.1.Carries P := by
  by_cases hu : kcp.updated = 0
  · unfold Ikcpcb.flush
    rwa [if_pos hu]
  · have hside : kcp.flush.1.sendSide = { kcp.loaded.sendSide with sndBuf := kcp.flushed.1 } := by
      rw [kcp.flush_eq hu]
      simp only [sendSide_minCwnd, sendSide_onLost, sendSide_onChange]
      rfl
    have hque : kcp.flush.1.sndQueue = kcp.loaded.sndQueue := congrArg SendSide.sndQueue hside
    intro seg hseg
    rw [hque, kcp.sndBuf_flush hu] at hseg
    rcases List.mem_append.mp hseg with hseg | hseg
    · exact h.loaded seg (List.mem_append_left _ hseg)
    · obtain ⟨old, hold, rfl⟩ := List.mem_map.mp hseg
      rw [data_eq_of_content (kcp.content_afterFlush old)]
      exact h.loaded old (List.mem_append_right _ hold)

theorem trims (h : kcp.Carries P) (hk : kcp.Trims kcp') : kcp'.Carries P := by
  intro seg hseg
  rcases List.mem_append.mp hseg with hseg | hseg
  · exact h seg (List.mem_append_left _ (hk.1 ▸ hseg))
  · obtain ⟨seg', hseg', he⟩ := List.mem_map.mp (hk.2.subset (List.mem_map_of_mem hseg))
    obtain ⟨-, -, hdata, -⟩ := eq_of_timing he
    rw [← hdata]
    exact h seg' (List.mem_append_right _ hseg')

/-- The fragments of a message are no longer than `mss`. -/
theorem send (h : kcp.Carries P) (hP : ∀ data : Bytes, data.length ≤ kcp.mss.toNat → P data)
    (buffer : Bytes) (len : ℤ) : (kcp.send buffer len).2.Carries P := by
  unfold Ikcpcb.send
  split_ifs
  · exact h
  · dsimp only
    split_ifs
    · exact h
    · intro seg hseg
      rcases List.mem_append.mp hseg with hseg | hseg
      · rcases List.mem_append.mp hseg with hseg | hseg
        · exact h seg (List.mem_append_left _ hseg)
        · exact hP _ (length_data_of_mem_fragments (List.mem_map_of_mem hseg))
      · exact h seg (List.mem_append_right _ hseg)

end Carries

namespace Queued

variable {kcp} {kcp' : Ikcpcb}

theorem carries (h : kcp.Queued) : kcp.Carries fun data => data.length < 2 ^ 32 := h.short

theorem loaded (h : kcp.Queued) : kcp.loaded.Queued := by
  refine ⟨h.carries.loaded, fun seg hseg => ?_⟩
  rcases kcp.mem_of_mem_loaded hseg with hold | ⟨hcmd, -⟩
  · exact h.push seg hold
  · exact hcmd

theorem flush (h : kcp.Queued) (hu : kcp.updated ≠ 0) : kcp.flush.1.Queued := by
  refine ⟨h.carries.flush, fun seg hseg => ?_⟩
  rw [kcp.sndBuf_flush hu] at hseg
  obtain ⟨old, hold, rfl⟩ := List.mem_map.mp hseg
  rw [cmd_eq_of_content (kcp.content_afterFlush old)]
  exact h.loaded.push old hold

theorem trims (h : kcp.Queued) (hk : kcp.Trims kcp') : kcp'.Queued := by
  refine ⟨h.carries.trims hk, fun seg hseg => ?_⟩
  obtain ⟨seg', hseg', he⟩ := List.mem_map.mp (hk.2.subset (List.mem_map_of_mem hseg))
  obtain ⟨-, hcmd, -⟩ := eq_of_timing he
  exact hcmd.symm.trans (h.push seg' hseg')

theorem send (h : kcp.Queued) (buffer : Bytes) (len : ℤ) : (kcp.send buffer len).2.Queued := by
  refine ⟨h.carries.send (fun data hlen => hlen.trans_lt kcp.mss.isLt) buffer len, ?_⟩
  unfold Ikcpcb.send
  split_ifs
  · exact h.push
  · dsimp only
    split_ifs <;> exact h.push

end Queued

end Ikcpcb

end LuaKcp.Ikcp
