import VNet.Blackbox.Process
import VNet.Lib.Exec

namespace VNet.Blackbox

open VNet.Protocol

/-- A byte of the packet. The state has the indices read so far, in order; the
memory behind the packet can be read like the packet. -/
def readAt (mem : ℕ → UInt8) (i : ℕ) : Exec (List ℕ) Unit UInt8 :=
  Exec.next fun reads => (mem i, reads ++ [i])

def memcpy16At (mem : ℕ → UInt8) (i : ℕ) : Exec (List ℕ) Unit UInt16 := do
  let b₀ ← readAt mem i
  let b₁ ← readAt mem (i + 1)
  pure (memcpy16 b₀ b₁)

def memcpy32At (mem : ℕ → UInt8) (i : ℕ) : Exec (List ℕ) Unit UInt32 := do
  let b₀ ← readAt mem i
  let b₁ ← readAt mem (i + 1)
  let b₂ ← readAt mem (i + 2)
  let b₃ ← readAt mem (i + 3)
  pure (memcpy32 b₀ b₁ b₂ b₃)

def rejected : Exec (List ℕ) Unit IPv4Header := Exec.fault ()

/-- `ipv4_parse`, with its reads; `data` is `none` when the pointer is null. -/
def ipv4ParseAt (data : Option (ℕ → UInt8)) (len : ℕ) : Exec (List ℕ) Unit IPv4Header :=
  match data with
  | none => rejected
  | some mem =>
    if len < 20 then rejected
    else do
      let version := ((← readAt mem 0) >>> 4) &&& 0x0F
      let ihl := (← readAt mem 0) &&& 0x0F
      if version ≠ 4 then rejected
      else if ihl < 5 then rejected
      else
        let ipHeaderBytes := ihl.toNat * 4
        if len < ipHeaderBytes then rejected
        else
          let totalLength ← memcpy16At mem 2
          let protocol ← readAt mem 9
          let totalHost := (← readAt mem 2).toUInt16 <<< 8 ||| (← readAt mem 3).toUInt16
          if totalHost.toNat > len then rejected
          else
            let srcIp ← memcpy32At mem 12
            let dstIp ← memcpy32At mem 16
            let out : IPv4Header :=
              { version, ihl, totalLength, protocol, srcIp, dstIp, srcPort := 0, dstPort := 0 }
            if protocol = protoTcp ∨ protocol = protoUdp then
              if len < ipHeaderBytes + 4 then rejected
              else
                let srcPort ← memcpy16At mem ipHeaderBytes
                let dstPort ← memcpy16At mem (ipHeaderBytes + 2)
                pure { out with srcPort, dstPort }
            else pure out

def ntohs (n : UInt16) : UInt16 := n <<< 8 ||| n >>> 8

/-- A well-formed packet of `len` bytes. The ports of TCP and UDP are inside of
what the total length delimits. -/
structure WellFormed (hdr : IPv4Header) (len : ℕ) : Prop where
  version : hdr.version = 4
  ihl : 5 ≤ hdr.ihl
  header_le : hdr.ihl.toNat * 4 ≤ (ntohs hdr.totalLength).toNat
  total_le : (ntohs hdr.totalLength).toNat ≤ len
  ports_le : hdr.protocol = protoTcp ∨ hdr.protocol = protoUdp →
    hdr.ihl.toNat * 4 + 4 ≤ (ntohs hdr.totalLength).toNat

def AcceptsWellFormed (data : Option (ℕ → UInt8)) (len : ℕ) : Prop :=
  (∀ i ∈ (ipv4ParseAt data len []).2, i < len) ∧
  ∀ hdr, (ipv4ParseAt data len []).1 = .ok hdr → WellFormed hdr len

def totalHost (mem : ℕ → UInt8) : UInt16 := (mem 2).toUInt16 <<< 8 ||| (mem 3).toUInt16

/-- The IP header, and the ports behind it in a packet of TCP or UDP. -/
def headersNeeded (mem : ℕ → UInt8) : ℕ :=
  (mem 0 &&& 0x0F).toNat * 4 + if mem 9 = protoTcp ∨ mem 9 = protoUdp then 4 else 0

structure Accepted (mem : ℕ → UInt8) (len : ℕ) : Prop where
  version : (mem 0 >>> 4) &&& 0x0F = 4
  ihl : 5 ≤ mem 0 &&& 0x0F
  headers_le : headersNeeded mem ≤ len
  total_le : (totalHost mem).toNat ≤ len

def headerOf (mem : ℕ → UInt8) : IPv4Header :=
  let ipHeaderBytes := (mem 0 &&& 0x0F).toNat * 4
  let hasPorts := mem 9 = protoTcp ∨ mem 9 = protoUdp
  { version := (mem 0 >>> 4) &&& 0x0F
    ihl := mem 0 &&& 0x0F
    totalLength := memcpy16 (mem 2) (mem 3)
    protocol := mem 9
    srcIp := memcpy32 (mem 12) (mem 13) (mem 14) (mem 15)
    dstIp := memcpy32 (mem 16) (mem 17) (mem 18) (mem 19)
    srcPort := if hasPorts then memcpy16 (mem ipHeaderBytes) (mem (ipHeaderBytes + 1)) else 0
    dstPort :=
      if hasPorts then memcpy16 (mem (ipHeaderBytes + 2)) (mem (ipHeaderBytes + 3)) else 0 }

section Parse

variable {mem : ℕ → UInt8} {len i : ℕ}

theorem headersNeeded_ports (h : mem 9 = protoTcp ∨ mem 9 = protoUdp) :
    headersNeeded mem = (mem 0 &&& 0x0F).toNat * 4 + 4 := by
  rw [headersNeeded, if_pos h]

theorem headersNeeded_noPorts (h : ¬ (mem 9 = protoTcp ∨ mem 9 = protoUdp)) :
    headersNeeded mem = (mem 0 &&& 0x0F).toNat * 4 := by
  rw [headersNeeded, if_neg h, Nat.add_zero]

theorem header_le_headersNeeded : (mem 0 &&& 0x0F).toNat * 4 ≤ headersNeeded mem :=
  Nat.le_add_right _ _

theorem Accepted.len_ge (h : Accepted mem len) : 20 ≤ len := by
  have hihl : 5 ≤ (mem 0 &&& 0x0F).toNat := h.ihl
  have hle := header_le_headersNeeded.trans h.headers_le
  omega

def Inside (len : ℕ) (reads : List ℕ) : Prop := ∀ i ∈ reads, i < len

variable {α : Type} {Q : α → List ℕ → Prop} {E : Unit → List ℕ → Prop}

theorem readAt_bind {f : UInt8 → Exec (List ℕ) Unit α} (hi : i < len)
    (hf : Exec.Triple (Inside len) (f (mem i)) Q E) :
    Exec.Triple (Inside len) (readAt mem i >>= f) Q E := by
  intro reads h
  refine hf (reads ++ [i]) fun j hj => ?_
  rcases List.mem_append.mp hj with hj | hj
  · exact h j hj
  · rwa [List.mem_singleton.mp hj]

theorem memcpy16At_bind {f : UInt16 → Exec (List ℕ) Unit α} (hi : i + 1 < len)
    (hf : Exec.Triple (Inside len) (f (memcpy16 (mem i) (mem (i + 1)))) Q E) :
    Exec.Triple (Inside len) (memcpy16At mem i >>= f) Q E :=
  readAt_bind (f := fun b₀ => readAt mem (i + 1) >>= fun b₁ => f (memcpy16 b₀ b₁)) (by omega)
    (readAt_bind hi hf)

theorem memcpy32At_bind {f : UInt32 → Exec (List ℕ) Unit α} (hi : i + 3 < len)
    (hf : Exec.Triple (Inside len)
      (f (memcpy32 (mem i) (mem (i + 1)) (mem (i + 2)) (mem (i + 3)))) Q E) :
    Exec.Triple (Inside len) (memcpy32At mem i >>= f) Q E :=
  readAt_bind (f := fun b₀ => readAt mem (i + 1) >>= fun b₁ => readAt mem (i + 2) >>= fun b₂ =>
      readAt mem (i + 3) >>= fun b₃ => f (memcpy32 b₀ b₁ b₂ b₃)) (by omega)
    (readAt_bind (by omega) (readAt_bind (by omega) (readAt_bind hi hf)))

/-- A check that fails. -/
theorem rejected_spec {Q : IPv4Header → List ℕ → Prop} (h : ¬ Accepted mem len) :
    Exec.Triple (Inside len) rejected Q fun _ reads => Inside len reads ∧ ¬ Accepted mem len :=
  .fault fun _ hreads => ⟨hreads, h⟩

/-- All reads are inside of the buffer, and the checks decide the answer. -/
theorem ipv4ParseAt_spec (mem : ℕ → UInt8) (len : ℕ) :
    Exec.Triple (Inside len) (ipv4ParseAt (some mem) len)
      (fun hdr reads => Inside len reads ∧ Accepted mem len ∧ hdr = headerOf mem)
      (fun _ reads => Inside len reads ∧ ¬ Accepted mem len) := by
  refine .ite (fun hlen => rejected_spec fun h => hlen.not_ge h.len_ge) fun hlen => ?_
  refine readAt_bind (by omega) (readAt_bind (by omega) ?_)
  refine .ite (fun hversion => rejected_spec fun h => hversion h.version) fun hversion => ?_
  refine .ite (fun hihl => rejected_spec fun h => UInt8.not_lt.mpr h.ihl hihl) fun hihl => ?_
  refine .ite (fun hheader => rejected_spec fun h => ?_) fun hheader => ?_
  · exact (hheader.trans_le header_le_headersNeeded).not_ge h.headers_le
  refine memcpy16At_bind (by omega) (readAt_bind (by omega) ?_)
  refine readAt_bind (by omega) (readAt_bind (by omega) ?_)
  refine .ite (fun htotal => rejected_spec fun h => htotal.not_ge h.total_le) fun htotal => ?_
  refine memcpy32At_bind (by omega) (memcpy32At_bind (by omega) ?_)
  have hacc (hle : headersNeeded mem ≤ len) : Accepted mem len :=
    ⟨not_not.mp hversion, UInt8.not_lt.mp hihl, hle, not_lt.mp htotal⟩
  refine .ite (fun hproto => ?_) fun hproto => ?_
  · have hneeded := headersNeeded_ports hproto
    refine .ite (fun hports => rejected_spec fun h => ?_) fun hports => ?_
    · exact hports.not_ge (hneeded ▸ h.headers_le)
    refine memcpy16At_bind (by omega) (memcpy16At_bind (by omega) ?_)
    refine .pure fun _ hreads => ⟨hreads, hacc (hneeded ▸ not_lt.mp hports), ?_⟩
    rw [headerOf, if_pos hproto, if_pos hproto]
  · have hneeded := headersNeeded_noPorts hproto
    refine .pure fun _ hreads => ⟨hreads, hacc (hneeded ▸ not_lt.mp hheader), ?_⟩
    rw [headerOf, if_neg hproto, if_neg hproto]

theorem ipv4ParseAt_cases (mem : ℕ → UInt8) (len : ℕ) :
    ∃ reads, Inside len reads ∧
      (Accepted mem len ∧ ipv4ParseAt (some mem) len [] = (.ok (headerOf mem), reads) ∨
        ¬ Accepted mem len ∧ ipv4ParseAt (some mem) len [] = (.error (), reads)) := by
  have hnil : Inside len [] := fun i hi => absurd hi List.not_mem_nil
  obtain ⟨hdr, reads, hr, hreads, hacc, rfl⟩ | ⟨e, reads, hr, hreads, hrejected⟩ :=
    (ipv4ParseAt_spec mem len).result hnil
  · exact ⟨reads, hreads, Or.inl ⟨hacc, hr⟩⟩
  · exact ⟨reads, hreads, Or.inr ⟨hrejected, hr⟩⟩

/-- On a vector of bytes the checks are those of the parser that `BlackBox::process`
calls; what the memory has behind the vector does not matter. -/
theorem ipv4Parse_eq_some_iff {data : Bytes} (hmem : ∀ i (h : i < data.length), mem i = data[i])
    {hdr : IPv4Header} :
    ipv4Parse data = some hdr ↔ Accepted mem data.length ∧ hdr = headerOf mem := by
  have hnone (h : ¬ Accepted mem data.length) :
      False ↔ Accepted mem data.length ∧ hdr = headerOf mem := by
    rw [false_iff]
    exact fun ⟨hacc, _⟩ => h hacc
  have hsome {out : IPv4Header} (hout : out = headerOf mem) (h : Accepted mem data.length) :
      some out = some hdr ↔ Accepted mem data.length ∧ hdr = headerOf mem := by
    rw [hout, Option.some.injEq, eq_comm, and_iff_right h]
  simp only [ipv4Parse, ← hmem]
  split_ifs with hlen hversion hihl hheader htotal hproto hports
  · exact hnone fun h => hlen.not_ge h.len_ge
  · exact hnone fun h => hversion h.version
  · exact hnone fun h => UInt8.not_lt.mpr h.ihl hihl
  · exact hnone fun h => (hheader.trans_le header_le_headersNeeded).not_ge h.headers_le
  · exact hnone fun h => htotal.not_ge h.total_le
  · exact hnone fun h => hports.not_ge (headersNeeded_ports hproto ▸ h.headers_le)
  · refine hsome ?_ ⟨not_not.mp hversion, UInt8.not_lt.mp hihl, ?_, not_lt.mp htotal⟩
    · rw [headerOf, if_pos hproto, if_pos hproto]
    · rw [headersNeeded_ports hproto]
      exact not_lt.mp hports
  · refine hsome ?_ ⟨not_not.mp hversion, UInt8.not_lt.mp hihl, ?_, not_lt.mp htotal⟩
    · rw [headerOf, if_neg hproto, if_neg hproto]
    · rw [headersNeeded_noPorts hproto]
      exact not_lt.mp hheader

theorem ipv4Parse_eq_toOption {data : Bytes} (hmem : ∀ i (h : i < data.length), mem i = data[i]) :
    ipv4Parse data = (ipv4ParseAt (some mem) data.length []).1.toOption := by
  apply Option.ext
  intro hdr
  rw [ipv4Parse_eq_some_iff hmem]
  obtain ⟨reads, -, ⟨hacc, hr⟩ | ⟨hacc, hr⟩⟩ := ipv4ParseAt_cases mem data.length
  · rw [hr]
    simp [hacc, Except.toOption, eq_comm]
  · rw [hr]
    simp [hacc, Except.toOption]

/-- Behind the parser a packet is dropped for other reasons. -/
theorem process_ne_malformed (b : BlackBox) (source : SourceType) (fd : ℤ) {raw : Bytes}
    {hdr : IPv4Header} (hparse : ipv4Parse raw = some hdr) :
    b.process source fd raw ≠ .drop .malformedPacket := by
  unfold BlackBox.process
  rw [hparse]
  cases source with
  | agent =>
    simp only [BlackBox.processFromAgent, BlackBox.routeToDestination]
    repeat' split
    all_goals simp [PacketDecision.drop, PacketDecision.deliverLocal,
      PacketDecision.forwardSwitch, PacketDecision.forwardInternet, PacketDecision.requestRoute]
  | switch =>
    simp only [BlackBox.processFromSwitch]
    split
    all_goals simp [PacketDecision.drop, PacketDecision.deliverLocal]
  | tun =>
    simp only [BlackBox.processFromTun]
    repeat' split
    all_goals simp [PacketDecision.drop, PacketDecision.deliverLocal]

/-- The bytes behind a pointer. -/
def packetAt (mem : ℕ → UInt8) (len : ℕ) : Bytes := (List.range len).map mem

theorem length_packetAt : (packetAt mem len).length = len := by simp [packetAt]

theorem getElem_packetAt (h : i < (packetAt mem len).length) : (packetAt mem len)[i] = mem i := by
  simp [packetAt]

theorem ipv4Parse_packetAt {hdr : IPv4Header} :
    ipv4Parse (packetAt mem len) = some hdr ↔ Accepted mem len ∧ hdr = headerOf mem := by
  have hbytes : ∀ i (h : i < (packetAt mem len).length), mem i = (packetAt mem len)[i] :=
    fun i h => (getElem_packetAt h).symm
  have hiff := @ipv4Parse_eq_some_iff mem (packetAt mem len) hbytes hdr
  rwa [length_packetAt] at hiff

/-- The black box reads a packet inside its `len` bytes and turns away as malformed
those that fail a check; it sees the header that the parser finds in any memory with
these bytes. -/
theorem process_reads_packet_only (b : BlackBox) (source : SourceType) (fd : ℤ)
    (mem : ℕ → UInt8) (len : ℕ) :
    Inside len (ipv4ParseAt (some mem) len []).2 ∧
    (b.process source fd (packetAt mem len) = .drop .malformedPacket ↔ ¬ Accepted mem len) ∧
    ∀ mem', (∀ i < len, mem' i = mem i) →
      ipv4Parse (packetAt mem len) = (ipv4ParseAt (some mem') len []).1.toOption := by
  refine ⟨?_, ⟨fun hmalformed hacc => ?_, fun hrejected => ?_⟩, fun mem' hsame => ?_⟩
  · obtain ⟨reads, hreads, ⟨-, hr⟩ | ⟨-, hr⟩⟩ := ipv4ParseAt_cases mem len
    · rwa [hr]
    · rwa [hr]
  · exact process_ne_malformed b source fd (ipv4Parse_packetAt.mpr ⟨hacc, rfl⟩) hmalformed
  · have hnone : ipv4Parse (packetAt mem len) = none :=
      Option.eq_none_iff_forall_ne_some.mpr fun hdr h => hrejected (ipv4Parse_packetAt.mp h).1
    rw [BlackBox.process, hnone]
  · have hbytes : ∀ i (h : i < (packetAt mem len).length), mem' i = (packetAt mem len)[i] := by
      intro i h
      rw [getElem_packetAt h]
      exact hsame i (by rwa [length_packetAt] at h)
    have hparse := ipv4Parse_eq_toOption hbytes
    rwa [length_packetAt] at hparse

theorem ntohs_memcpy16 (a b : UInt8) :
    ntohs (memcpy16 a b) = a.toUInt16 <<< 8 ||| b.toUInt16 := by
  apply UInt16.toBitVec_inj.mp
  ext i hi
  rcases Nat.lt_or_ge i 8 with hlow | hhigh
  · have hi' : 8 + i < 16 := by omega
    simp [ntohs, memcpy16, hlow, hi']
  · have hi' : i - 8 < 8 := by omega
    have hb : b.toBitVec.getLsbD i = false := BitVec.getLsbD_of_ge _ _ hhigh
    simp [ntohs, memcpy16, Nat.not_lt.mpr hhigh, hi', hb]

/-- The checks leave one thing open: that the total length covers the headers. -/
theorem Accepted.wellFormed_iff (h : Accepted mem len) :
    WellFormed (headerOf mem) len ↔ headersNeeded mem ≤ (totalHost mem).toNat := by
  have htotal : ntohs (headerOf mem).totalLength = totalHost mem := ntohs_memcpy16 _ _
  constructor
  · intro hwf
    unfold headersNeeded
    rw [← htotal]
    split_ifs with hproto
    · exact hwf.ports_le hproto
    · exact hwf.header_le
  · intro hle
    refine ⟨h.version, h.ihl, ?_, ?_, fun hproto => ?_⟩
    · rw [htotal]
      exact (Nat.le_add_right _ _).trans hle
    · rw [htotal]
      exact h.total_le
    · have hports : mem 9 = protoTcp ∨ mem 9 = protoUdp := hproto
      rw [headersNeeded, if_pos hports] at hle
      rw [htotal]
      exact hle

end Parse

/-- A packet whose headers fit into the buffer, but not into its own total length. -/
structure CutShort (mem : ℕ → UInt8) (len : ℕ) : Prop where
  version : (mem 0 >>> 4) &&& 0x0F = 4
  ihl : 5 ≤ mem 0 &&& 0x0F
  headers_le : headersNeeded mem ≤ len
  short : (totalHost mem).toNat < headersNeeded mem

theorem cutShort_iff {mem : ℕ → UInt8} {len : ℕ} :
    CutShort mem len ↔ Accepted mem len ∧ (totalHost mem).toNat < headersNeeded mem := by
  constructor
  · intro h
    exact ⟨⟨h.version, h.ihl, h.headers_le, h.short.le.trans h.headers_le⟩, h.short⟩
  · rintro ⟨h, hshort⟩
    exact ⟨h.version, h.ihl, h.headers_le, hshort⟩

/-- The parser never reads past the buffer; the packets it accepts although
they are not well-formed are those that are cut short. -/
theorem ipv4_parse_well_formed_iff (data : Option (ℕ → UInt8)) (len : ℕ) :
    AcceptsWellFormed data len ↔ ∀ mem, data = some mem → ¬ CutShort mem len := by
  constructor
  · rintro ⟨-, hwf⟩ mem rfl hcut
    obtain ⟨hacc, hshort⟩ := cutShort_iff.mp hcut
    obtain ⟨reads, -, ⟨-, hr⟩ | ⟨hrejected, -⟩⟩ := ipv4ParseAt_cases mem len
    · rw [hr] at hwf
      exact hshort.not_ge (hacc.wellFormed_iff.mp (hwf _ rfl))
    · exact hrejected hacc
  · intro h
    cases data with
    | none => exact ⟨fun i hi => absurd hi List.not_mem_nil, fun hdr hok => by cases hok⟩
    | some mem =>
      obtain ⟨reads, hreads, ⟨hacc, hr⟩ | ⟨-, hr⟩⟩ := ipv4ParseAt_cases mem len
      · rw [AcceptsWellFormed, hr]
        refine ⟨hreads, fun hdr hok => ?_⟩
        cases hok
        apply hacc.wellFormed_iff.mpr
        by_contra hlt
        exact h mem rfl (cutShort_iff.mpr ⟨hacc, not_le.mp hlt⟩)
      · rw [AcceptsWellFormed, hr]
        exact ⟨hreads, fun hdr hok => by cases hok⟩

def zeroLengthPacket (i : ℕ) : UInt8 := if i = 0 then 0x45 else if i = 9 then protoTcp else 0

theorem ipv4_parse_accepts_zero_length : ¬ ∀ data len, AcceptsWellFormed data len := by
  intro h
  have hwf := (h (some zeroLengthPacket) 24).2 (headerOf zeroLengthPacket) (by rfl)
  exact absurd hwf.header_le (by decide)

end VNet.Blackbox
