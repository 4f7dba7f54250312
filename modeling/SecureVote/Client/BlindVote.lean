import SecureVote.Client.Text

/-!
# The blind-signature voting client (`static/js/blind_vote.js`)

A loop runs over the variables that it assigns, as a state of their own. The browser and the server
are parameters of `castBlindVote`: what is drawn, and how the requests are answered.
-/

namespace SecureVote

namespace BlindVote

open Loop Comp Js Py

/-- The variables of the loop of `modPow`. -/
structure ModPowVars where
  base : ℤ
  result : ℤ
  exp : ℤ

/-- The test of the loop of `modPow`. -/
def modPowTest (v : ModPowVars) : Bool := v.exp > 0

/-- The body of the loop of `modPow`. -/
def modPowRound (mod : ℤ) (v : ModPowVars) : Eval ModPowVars := do
  let result ← (if bitAnd v.exp 1 ≠ 0 then rem (v.result * v.base) mod else pure v.result : Eval ℤ)
  let exp := shiftRight v.exp 1
  let base ← rem (v.base * v.base) mod
  pure { base, result, exp }

/-- `modPow` -/
def modPow (base exp mod : ℤ) : Eval ℤ := do
  let base ← rem ((← rem base mod) + mod) mod
  let v ← whileDo modPowTest (modPowRound mod) { base, result := 1, exp }
  pure v.result

/-- The variables of the loop of `modInverse`. -/
structure ModInverseVars where
  oldR : ℤ
  r : ℤ
  oldS : ℤ
  s : ℤ

/-- The test of the loop of `modInverse`. -/
def modInverseTest (v : ModInverseVars) : Bool := v.r ≠ 0

/-- The body of the loop of `modInverse`. -/
def modInverseRound (v : ModInverseVars) : Eval ModInverseVars := do
  let q ← div v.oldR v.r
  pure { oldR := v.r, r := v.oldR - q * v.r, oldS := v.s, s := v.oldS - q * v.s }

/-- `modInverse` -/
def modInverse (a m : ℤ) : Eval ℤ := do
  let v ← whileDo modInverseTest modInverseRound { oldR := a, r := m, oldS := 1, s := 0 }
  rem ((← rem v.oldS m) + m) m

/-! ### Hashing -/

/-- `bytesToBigInt` -/
def bytesToBigInt (bytes : List UInt8) : Eval ℤ :=
  let hex := bytes.flatMap fun b => padStart 2 (natRepr 16 b.toNat)
  bigInt (py "0x" ++ if hex.isEmpty then py "0" else hex)

/-- `bigIntToHex` -/
def bigIntToHex (n : ℤ) : PyStr :=
  let h := toString16 n
  if h.length % 2 ≠ 0 then py "0" ++ h else h

/-- The octet that a store of `x & 0xff` leaves. -/
def octet (x : ℕ) : UInt8 := UInt8.ofNat (x &&& 0xff)

/-- What is hashed for one block of the expansion in `hashBallot`. -/
def blockData (seed : List UInt8) (i : ℕ) : Eval (List UInt8) := do
  let data ← setAt (List.replicate (seed.length + 4) 0) seed 0
  let data := data.set seed.length (octet (i >>> 24))
  let data := data.set (seed.length + 1) (octet (i >>> 16))
  let data := data.set (seed.length + 2) (octet (i >>> 8))
  pure (data.set (seed.length + 3) (octet i))

/-- `hashBallot`, for the hash function of `crypto.subtle.digest`. -/
def hashBallot (digest : List UInt8 → List UInt8) (ballotBytes : List UInt8) (n : ℤ) : Eval ℤ := do
  let seed := digest ballotBytes
  let blocks ← forRange 8 (fun i blocks => do
    let data ← blockData seed i
    pure (blocks ++ [digest data])) []
  let expanded ← forRange 8 (fun i expanded => setAt expanded (blocks.getD i []) (i * 32))
    (List.replicate 256 0)
  rem (← bytesToBigInt expanded) n

/-! ### The blinding factor -/

/-- The variables of the loop of `generateBlindingFactor`. -/
structure BlindingVars where
  r : ℤ
  draws : ℕ

/-- The body of the loop of `generateBlindingFactor`. -/
def blindingRound (draw : ℕ → ℕ → List UInt8) (n : ℤ) (v : BlindingVars) : Eval BlindingVars := do
  let nBytes := ((toString16 n).length + 1) / 2
  let r ← rem (← bytesToBigInt (draw nBytes v.draws)) n
  pure { r, draws := v.draws + 1 }

/-- `generateBlindingFactor`; `draw k i` are the `k` octets of the `i`-th call of
`crypto.getRandomValues`. -/
def generateBlindingFactor (draw : ℕ → ℕ → List UInt8) (n : ℤ) : Eval ℤ := do
  let first ← blindingRound draw n { r := 0, draws := 0 }
  let v ← whileDo (fun v => v.r < 2) (blindingRound draw n) first
  pure v.r

/-! ### The protocol -/

/-- What `/vote/blind-key` answers. -/
structure KeyData where
  n : PyStr
  e : PyStr
  electionId : ℕ

/-- The browser and the server as the script meets them: SHA-256, what is drawn, and the answers to
the three requests, or the `error` of one that is not `ok`. -/
structure Page where
  digest : List UInt8 → List UInt8
  nonceBytes : List UInt8
  draw : ℕ → ℕ → List UInt8
  blindKey : SafeInteger → Option KeyData
  requestToken : PyStr → Except PyStr PyStr
  cast : PyStr → Except PyStr Unit

/-- The ballot, as octets. -/
def ballotBytes (candidateId electionId : SafeInteger) (nonce : PyStr) : List UInt8 :=
  encode (stringify (.obj [(py "candidate_id", candidateId.json), (py "nonce", .str nonce),
    (py "election_id", electionId.json)]))

/-- Step 6: `(m * r^e) % n`. -/
def blind (m r e n : ℤ) : Eval ℤ := do
  let rE ← modPow r e n
  rem (m * rE) n

/-- Step 8: `(blindSig * r^(-1)) % n`. -/
def unblind (blindSig r n : ℤ) : Eval ℤ := do
  let rInv ← modInverse r n
  rem (blindSig * rInv) n

/-- The body of the request for a blind signature. -/
def tokenBody (blinded : ℤ) (electionId : SafeInteger) : PyStr :=
  stringify (.obj [(py "blinded_ballot", .str (bigIntToHex blinded)),
    (py "election_id", electionId.json)])

/-- The body of the request that casts the ballot. -/
def castBody (ballot : List UInt8) (signature : ℤ) : PyStr :=
  stringify (.obj [(py "ballot", .str (ballot.flatMap fun b => padStart 2 (natRepr 16 b.toNat))),
    (py "signature", .str (bigIntToHex signature))])

/-- `throw new Error(error || message)` for an answer that is not `ok`. -/
def orThrow {α : Type} (message : PyStr) (answer : Except PyStr α) : Eval α :=
  match answer with
  | .ok a => pure a
  | .error e => raise (.error (if e.isEmpty then message else e))

/-- `castBlindVote`; what it throws is shown on the page. -/
def castBlindVote (page : Page) (candidateId electionId : SafeInteger) : Eval Unit := do
  let nonce := page.nonceBytes.flatMap fun b => padStart 2 (natRepr 16 b.toNat)
  let ballot := ballotBytes candidateId electionId nonce
  let some keyData := page.blindKey electionId
    | raise (.error (py "Failed to fetch signing key"))
  if keyData.electionId ≠ electionId.toNat then
    raise (.error (py "Signing key does not match the selected election"))
  else
    let n ← bigInt keyData.n
    let e ← bigInt keyData.e
    let m ← hashBallot page.digest ballot n
    let r ← generateBlindingFactor page.draw n
    let blinded ← blind m r e n
    let token ← orThrow (py "Token request failed")
      (page.requestToken (tokenBody blinded electionId))
    let blindSig ← bigInt token
    let signature ← unblind blindSig r n
    orThrow (py "Ballot submission failed") (page.cast (castBody ballot signature))

end BlindVote

end SecureVote
