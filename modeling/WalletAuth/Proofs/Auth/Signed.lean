import Mathlib
import WalletAuth.Proofs.Auth.Transport
import WalletAuth.Proofs.Auth.Verdict
import WalletAuth.Proofs.HdKey.Print

/-! A signed request is accepted on the other side. The signer uses a private child of its key, or its
access key; the verifier reads the public half from the text of the identity and derives the child
again. Both arrive at the same key, so the signature is recovered as that key's, and all parts of the
payload pass through the header fields. -/
namespace WalletAuth.Auth
open Http
open ExtendedKey (firstRoot)
set_option autoImplicit false

/-! ## Texts of the parts -/

theorem hashBody_ne_empty (body : Bytes) : hashBody body ≠ "" :=
  Hex.encode_ne_empty ((Hash.sha256 body).toList_ne_nil (by decide))

theorem length_drawNonce (e : Entropy) :
    (Utf8.encode (drawNonce e).1).length = Path.chunkLength * 8 := by
  have hnonce : (drawNonce e).1 = Hex.encode (e.next nonceLength).toList := rfl
  rw [hnonce, Hex.length_utf8_encode, Octets.length_toList]
  rfl

namespace Payload

theorem signedOctets_eq (p : Payload) : p.signedOctets = Utf8.encode p.identity.text ++
    Utf8.encode p.bodyHash ++ Utf8.encode p.nonce ++ Utf8.encode (Numeral.ofInt64 p.time) := by
  unfold signedOctets signingMessage
  rw [Utf8.encode_append, Utf8.encode_append, Utf8.encode_append]

/-! ## What signing makes -/

/-- A payload that a key signed on behalf of an identity. -/
structure SignedBy (p : Payload) (identity : Identity) (key : PrivateKey) (body : Bytes)
    (nonce : String) (time : Int64) : Prop where
  identity_eq : p.identity = identity
  bodyHash_eq : p.bodyHash = hashBody body
  nonce_eq : p.nonce = nonce
  time_eq : p.time = time
  signature : SignedMessage.signText p.signedOctets key = .ok p.signature

variable {p : Payload} {identity : Identity} {key : PrivateKey} {body : Bytes} {nonce : String}
  {time : Int64}

theorem signedBy_of_signAs (h : signAs identity key body nonce time = .ok p) :
    SignedBy p identity key body nonce time := by
  obtain ⟨signature, hsign, rfl⟩ := map_eq_ok_iff.mp h
  exact ⟨rfl, rfl, rfl, rfl, mapError_eq_ok_iff.mp hsign⟩

theorem exists_signAs {digest : Octets 32} {drawn : PrivateKey}
    (hdigest : SignedMessage.digest (signedOctets
      { identity, bodyHash := hashBody body, nonce, time, signature := "" }) = digest)
    (hnonce : Ecdsa.nonce? key digest = some drawn)
    (hsign : (key.signWith? drawn digest).isSome = true) :
    ∃ p, signAs identity key body nonce time = .ok p := by
  obtain ⟨text, htext⟩ := SignedMessage.exists_signText hdigest hnonce hsign
  unfold signAs
  simp only [htext]
  exact ⟨_, rfl⟩

theorem SignedBy.carried (h : SignedBy p identity key body nonce time)
    (hidentity : identity.text ≠ "" ∧ ∀ c ∈ identity.text.toList, Char.IsPlain c)
    (hnonce : nonce ≠ "" ∧ ∀ c ∈ nonce.toList, Char.IsPlain c) : p.Carried := by
  obtain ⟨o, -, hsignature⟩ := map_eq_ok_iff.mp h.signature
  have ho : o.toList ≠ [] := o.toList_ne_nil (by decide)
  unfold Carried texts
  rw [h.identity_eq, h.bodyHash_eq, h.nonce_eq, ← hsignature]
  simp only [List.forall_mem_cons]
  exact ⟨hidentity, ⟨hashBody_ne_empty body, Hex.isPlain_of_mem_encode⟩, hnonce,
    ⟨Numeral.ofInt64_ne_empty p.time, Numeral.isPlain_of_mem_ofInt64⟩,
    ⟨Base64.encode_ne_empty ho, Base64.isPlain_of_mem_encode⟩, by simp⟩

/-! ## Checking -/

/-- A payload is accepted if the verifier arrives at the key that signed. -/
theorem SignedBy.verify (h : SignedBy p identity key body nonce time)
    (hkey : p.expectedSigner = .ok key.publicKey) {now maxSkew : Int64}
    (hskew : |time.toInt - now.toInt| ≤ |maxSkew.toInt|) :
    p.verify body now maxSkew = .ok () := by
  rw [← h.time_eq] at hskew
  exact verify_of_verdict (.accepted ⟨h.bodyHash_eq, hskew⟩ (expectedSigner_eq_iff.mp hkey)
    (SignedMessage.leadsTo_of_signText h.signature))

/-- The verifier derives the public half of the child that signed. -/
theorem expectedSigner_xpub {root child : ExtendedKey} (hroot : root.Reachable)
    (hidentity : p.identity = .xpub root.neuter.print) (hchild : root.descendText p.nonce = .ok child)
    (hkey : child.privateKey = .ok key) : p.expectedSigner = .ok key.publicKey := by
  have hneuter : root.take .neuter = .ok root.neuter := rfl
  have hread : ExtendedKey.read root.neuter.print = .ok root.neuter :=
    ExtendedKey.read_eq_ok_iff.mpr ⟨rfl, (hroot.step hneuter).rooted⟩
  have hderived : root.neuter.neuter.descendText p.nonce = .ok child.neuter := by
    have h := root.descendText_neuter p.nonce
    rw [hchild] at h
    exact h
  have hpublic : child.neuter.publicKey = key.publicKey := by
    rw [ExtendedKey.publicKey_neuter, ExtendedKey.publicKey_of_privateKey hkey]
  unfold expectedSigner
  rw [hidentity]
  simp only [hread, hderived, hpublic]

theorem expectedSigner_accessKey (h : p.identity = .accessKey key.publicKey.toHex) :
    p.expectedSigner = .ok key.publicKey := by
  unfold expectedSigner
  rw [h]
  simp only [PublicKey.ofHex_toHex]

theorem signByXpriv_eq_ok_iff {root : ExtendedKey} :
    signByXpriv root body nonce time = .ok p ↔ ∃ child key, root.descendText nonce = .ok child ∧
      child.privateKey = .ok key ∧ signAs (.xpub root.neuter.print) key body nonce time = .ok p := by
  unfold signByXpriv
  cases hchild : root.descendText nonce with
  | error e => simp
  | ok child =>
    cases hkey : child.privateKey with
    | error e => simp [hkey]
    | ok key => simp [hkey]

theorem signedBy_of_signByXpriv {root : ExtendedKey}
    (h : signByXpriv root body nonce time = .ok p) :
    ∃ key, SignedBy p (.xpub root.neuter.print) key body nonce time := by
  obtain ⟨child, key, -, -, hsign⟩ := signByXpriv_eq_ok_iff.mp h
  exact ⟨key, signedBy_of_signAs hsign⟩

/-! ## The first keys

The plain root of the first private key signs, and so does that key itself. Each hash and each step down
is checked by itself, since the evaluation of all of them at once takes too much memory. -/

def zeros : Entropy := ⟨fun _ => 0, 0⟩

theorem firstRoot_reachable : firstRoot.Reachable :=
  .accepted (ExtendedKey.read_eq_ok_iff.mpr ⟨rfl, fun _ => by decide⟩)

theorem firstRoot_descendText :
    ∃ child, firstRoot.descendText (drawNonce zeros).1 = .ok child ∧ child.privateKey = .ok
      ⟨0xf7b053cee35eda3a0c4d8d6b7cd26f15644a75f78e5c989a62b4e2b449105012, by decide⟩ := by
  have hnodes : ((Octets.replicate 32 0, ⟨1, by decide⟩) ::
      [(Octets.ofNat 32 0x8aedbb4c67c846b9ed458f1fb89b9c7c62d695f210ab89c9c3f99989302a85c7,
        ⟨0x23f2740ea906f427c10cd03910c510f0c468e703f042a8d06c5b7721f2c15b34, by decide⟩),
      (Octets.ofNat 32 0xad745b3b3b726d506fca6eec15a4e580e9e716da89799d65d4492563ded40731,
        ⟨0x7d9629d719b0429d7f6fcc44ee4e6782201d0c07731b052b60ddf90c357ffec3, by decide⟩),
      (Octets.ofNat 32 0x4203c0931da424ae818791d26d8c4baced77243609da4344457f73ad675bcefb,
        ⟨0xf6d899a601816e3c3ca7c902eb6ac75d23a754ccdf86c65544e0d9191ccf4c64, by decide⟩),
      (Octets.ofNat 32 0x4efb99689063ee2b7b50259cd1020f076f6e1581af458ee975a261f0b45c8f98,
        ⟨0x6488d5ff81a4a1b1971f22e25ff3b98cf60c106dc564aee377ee1afadf3c2528, by decide⟩),
      (Octets.ofNat 32 0x5eb5eb0bee3dfbfc05b505b706ea8f9c5e3476ba2ca7a113edc0f786bf56ec7f,
        ⟨0x8face1dd839763559da2d918198f45a5bca00b5da87c777b1d572a68e84ff04b, by decide⟩),
      (Octets.ofNat 32 0x19440476227c8812d1f6067f95130dbf9a9603eb55dd2a1f3f7bb1454c554d18,
        ⟨0x314632bd6f546f7a6489de8f92fc2cbfe4f9a1f889ea7e0fc30517899364b746, by decide⟩),
      (Octets.ofNat 32 0x3e97072afed3968f3edf9187b48b178b2acd9d0dc88a6d7a2bd5902b62d8632d,
        ⟨0xb93d9687c264a2f2517d779eddbc81295cc044286b2104eb68fa894e4786f0ab, by decide⟩),
      (Octets.ofNat 32 0x8d1e636d52d6786e72f36b4a1952b368652d840d89ca6757ace98736f31babde,
        ⟨0xf7b053cee35eda3a0c4d8d6b7cd26f15644a75f78e5c989a62b4e2b449105012, by decide⟩)]).IsChain
        fun a b => ExtendedKey.secretChild a 0 = some b := by
    simp only [List.isChain_cons_cons, List.isChain_singleton]
    refine ⟨?_, ?_, ?_, ?_, ?_, ?_, ?_, ?_, trivial⟩ <;> decide +kernel
  have hpath : Path.ofText (drawNonce zeros).1 = .ok (List.replicate 8 0) := by
    have hnonce : (drawNonce zeros).1 = Hex.encode (zeros.next nonceLength).toList := rfl
    unfold Path.ofText
    rw [hnonce, Hex.utf8_encode]
    decide +kernel
  obtain ⟨child, hchild, hkey⟩ :=
    ExtendedKey.descend_of_isChain (k := firstRoot) (by decide) hnodes rfl rfl (by decide)
  exact ⟨child, ExtendedKey.descendText_eq_ok_iff.mpr ⟨_, hpath, hchild⟩, hkey⟩

theorem exists_signByXpriv : ∃ p, signByXpriv firstRoot [] (drawNonce zeros).1 0 = .ok p := by
  obtain ⟨child, hchild, hkey⟩ := firstRoot_descendText
  have hdigest : SignedMessage.digest (signedOctets
      { identity := .xpub firstRoot.neuter.print, bodyHash := hashBody [],
        nonce := (drawNonce zeros).1, time := 0, signature := "" }) =
      Octets.ofNat 32 0x2db98effd3356481a5c6c3e1a3157721713c62cf8a00fec23ef82940f220e301 := by
    rw [signedOctets_eq]
    unfold hashBody drawNonce Entropy.drawHex Identity.text ExtendedKey.print Base58.checkEncode
    rw [Base58.utf8_encode, Hex.utf8_encode, Hex.utf8_encode]
    decide +kernel
  have hnonce : Ecdsa.nonce?
      ⟨0xf7b053cee35eda3a0c4d8d6b7cd26f15644a75f78e5c989a62b4e2b449105012, by decide⟩
      (Octets.ofNat 32 0x2db98effd3356481a5c6c3e1a3157721713c62cf8a00fec23ef82940f220e301) =
      some ⟨0x905e5675c6319a4fcc57ab8a9683dd880990c3eddd5a168ac364a60272514e58, by decide⟩ :=
    Ecdsa.nonce?_eq_some
      (Octets.ofNat 32 0x8ce3a0bf27a82f243f10158568411542ca28316fd2d3b7a90aa79d5be23df6e2)
      (Octets.ofNat 32 0xd87391e4f77e6c75cf8d6108f468b2c9fc88c992fa28da04af731f730bc5226f)
      (Octets.ofNat 32 0x9cb1d5f4c41d071e4c1f9e3a538ee05e50b9ab6e70c896db4f6bd73eead162d8)
      (Octets.ofNat 32 0x4d266ac12df10f02d044781aa1c22d84fa0e139e18d6efdea92643c1a59751da)
      (by decide +kernel) (by decide +kernel) (by decide +kernel) (by decide +kernel)
      (by decide +kernel)
  obtain ⟨p, hp⟩ := exists_signAs hdigest hnonce (by decide +kernel)
  exact ⟨p, signByXpriv_eq_ok_iff.mpr ⟨child, _, hchild, hkey, hp⟩⟩

theorem exists_signByAccessKey :
    ∃ p, signByAccessKey ⟨1, by decide⟩ [] (drawNonce zeros).1 0 = .ok p := by
  have hdigest : SignedMessage.digest (signedOctets
      { identity := .accessKey (PrivateKey.publicKey ⟨1, by decide⟩).toHex, bodyHash := hashBody [],
        nonce := (drawNonce zeros).1, time := 0, signature := "" }) =
      Octets.ofNat 32 0xeae9aa666ddd6141c1e30ad42ebe942c683da9a649d16dfbdbd0827367ffd20 := by
    rw [signedOctets_eq]
    unfold hashBody drawNonce Entropy.drawHex Identity.text PublicKey.toHex
    rw [Hex.utf8_encode, Hex.utf8_encode, Hex.utf8_encode]
    decide +kernel
  have hnonce : Ecdsa.nonce? ⟨1, by decide⟩
      (Octets.ofNat 32 0xeae9aa666ddd6141c1e30ad42ebe942c683da9a649d16dfbdbd0827367ffd20) =
      some ⟨0x1a3771bd184b2b43ae1680a553ba7aaf0fe5a79cda22b726482a46e4bc3088f3, by decide⟩ :=
    Ecdsa.nonce?_eq_some
      (Octets.ofNat 32 0x2a04bcd3304e3f8409856a52aee9bd1a06281fb2d2289800861c041d3c95dac1)
      (Octets.ofNat 32 0x6a17e3f3dc8453b61132eceb2ec4ed7198ba1a8faf2caa627e127f8f7b50acd3)
      (Octets.ofNat 32 0x2f05d4426ac8e0e6945a42053f34ed2a41b43cefa529ea289887739d94ea9a7d)
      (Octets.ofNat 32 0x2e19e2a5c93a92e19e6f68b2b35ee51d5bf068a6688e37a746fb80de854323d9)
      (by decide +kernel) (by decide +kernel) (by decide +kernel) (by decide +kernel)
      (by decide +kernel)
  exact exists_signAs hdigest hnonce (by decide +kernel)

/-! ## The other side -/

/-- What becomes of a payload on the other side: it passes through any header fields, and it is accepted
by every clock that is close enough. -/
def Accepted (p : Payload) (body : Bytes) (time : Int64) : Prop :=
  (∀ (names : HeaderNames) (m : HeaderMap), names.Usable →
    ∃ written, p.write names m = .ok written ∧ read written names = .ok p) ∧
  ∀ now maxSkew : Int64, |time.toInt - now.toInt| ≤ |maxSkew.toInt| →
    p.verify body now maxSkew = .ok ()

theorem SignedBy.accepted (h : SignedBy p identity key body nonce time) (hcarried : p.Carried)
    (hkey : p.expectedSigner = .ok key.publicKey) : p.Accepted body time :=
  ⟨fun _ m hnames => exists_write_read hnames hcarried m, fun _ _ hskew => h.verify hkey hskew⟩

theorem drawNonce_plain (e : Entropy) :
    (drawNonce e).1 ≠ "" ∧ ∀ c ∈ (drawNonce e).1.toList, Char.IsPlain c := by
  have hne : (e.next nonceLength).toList ≠ [] := (e.next nonceLength).toList_ne_nil (by decide)
  exact ⟨Hex.encode_ne_empty hne, Hex.isPlain_of_mem_encode⟩

theorem carried_of_signByXpriv {root : ExtendedKey} {e : Entropy}
    (h : signByXpriv root body (drawNonce e).1 time = .ok p) : p.Carried := by
  obtain ⟨key, hsigned⟩ := signedBy_of_signByXpriv h
  exact hsigned.carried
    ⟨Base58.checkEncode_ne_empty _, Base58.isPlain_of_mem_encode⟩ (drawNonce_plain e)

theorem carried_of_signByAccessKey {e : Entropy}
    (h : signByAccessKey key body (drawNonce e).1 time = .ok p) : p.Carried := by
  have hkey : key.publicKey.compressed.toList ≠ [] := by
    rw [PublicKey.toList_compressed]
    exact List.cons_ne_nil _ _
  exact (signedBy_of_signAs h).carried
    ⟨Hex.encode_ne_empty hkey, Hex.isPlain_of_mem_encode⟩ (drawNonce_plain e)

theorem accepted_of_signByXpriv {root : ExtendedKey} {e : Entropy} (hroot : root.Reachable)
    (h : signByXpriv root body (drawNonce e).1 time = .ok p) : p.Accepted body time := by
  obtain ⟨child, key, hchild, hkey, hsign⟩ := signByXpriv_eq_ok_iff.mp h
  have hsigned := signedBy_of_signAs hsign
  rw [← hsigned.nonce_eq] at hchild
  exact hsigned.accepted (carried_of_signByXpriv h)
    (expectedSigner_xpub hroot hsigned.identity_eq hchild hkey)

theorem accepted_of_signByAccessKey {e : Entropy}
    (h : signByAccessKey key body (drawNonce e).1 time = .ok p) : p.Accepted body time := by
  have hsigned := signedBy_of_signAs h
  exact hsigned.accepted (carried_of_signByAccessKey h)
    (expectedSigner_accessKey hsigned.identity_eq)

/-- A nonce leads down eight steps, for which a key has to leave room. -/
theorem depth_le_of_signByXpriv {root : ExtendedKey} {e : Entropy}
    (h : signByXpriv root body (drawNonce e).1 time = .ok p) : root.depth.toNat ≤ 247 := by
  obtain ⟨child, key, hchild, -, -⟩ := signByXpriv_eq_ok_iff.mp h
  have hdepth := ExtendedKey.depth_of_descendText hchild (length_drawNonce e)
  have hlt := child.depth.toNat_lt
  omega

/-- Every signed request is accepted on the other side, with an extended key that a walk leads to as with
an access key. An extended key deeper than 247 signs none. -/
theorem signed_request_accepted :
    (∀ (root : ExtendedKey) (body : Bytes) (e : Entropy) (time : Int64) (p : Payload),
      root.Reachable → signByXpriv root body (drawNonce e).1 time = .ok p →
        p.Accepted body time) ∧
    (∀ (key : PrivateKey) (body : Bytes) (e : Entropy) (time : Int64) (p : Payload),
      signByAccessKey key body (drawNonce e).1 time = .ok p → p.Accepted body time) ∧
    ∀ (root : ExtendedKey) (body : Bytes) (e : Entropy) (time : Int64) (p : Payload),
      247 < root.depth → signByXpriv root body (drawNonce e).1 time ≠ .ok p := by
  refine ⟨fun _ _ _ _ _ hroot h => accepted_of_signByXpriv hroot h,
    fun _ _ _ _ _ h => accepted_of_signByAccessKey h, ?_⟩
  intro root body e time p hdepth h
  have hle := depth_le_of_signByXpriv h
  rw [UInt8.lt_iff_toNat_lt] at hdepth
  exact absurd hdepth hle.not_gt

/-- Requests of the first keys reach the other side through empty header fields and are accepted at the
edge of what is allowed; a root moved down to depth 248 signs none. -/
theorem first_requests_accepted :
    (∃ p written, signByXpriv firstRoot [] (drawNonce zeros).1 0 = .ok p ∧
      p.write {} .empty = .ok written ∧ read written {} = .ok p ∧
      p.verify [] 30000 (-30000) = .ok ()) ∧
    (∃ p written, signByAccessKey ⟨1, by decide⟩ [] (drawNonce zeros).1 0 = .ok p ∧
      p.write {} .empty = .ok written ∧ read written {} = .ok p ∧
      p.verify [] 30000 (-30000) = .ok ()) ∧
    ∀ (body : Bytes) (e : Entropy) (time : Int64) (p : Payload),
      signByXpriv { firstRoot with depth := 248 } body (drawNonce e).1 time ≠ .ok p := by
  have hskew : |(0 : Int64).toInt - (30000 : Int64).toInt| ≤ |(-30000 : Int64).toInt| := by decide
  obtain ⟨p, hp⟩ := exists_signByXpriv
  obtain ⟨q, hq⟩ := exists_signByAccessKey
  obtain ⟨hpass, hverify⟩ := signed_request_accepted.1 _ _ _ _ p firstRoot_reachable hp
  obtain ⟨hpass', hverify'⟩ := signed_request_accepted.2.1 _ _ _ _ q hq
  obtain ⟨written, hwrite, hread⟩ := hpass {} .empty HeaderNames.usable_default
  obtain ⟨written', hwrite', hread'⟩ := hpass' {} .empty HeaderNames.usable_default
  exact ⟨⟨p, written, hp, hwrite, hread, hverify 30000 (-30000) hskew⟩,
    ⟨q, written', hq, hwrite', hread', hverify' 30000 (-30000) hskew⟩,
    fun body e time p' => signed_request_accepted.2.2 _ body e time p' (by decide)⟩

end Payload

end WalletAuth.Auth
