/-! Machine words: numbers of a limited count of bits. -/
namespace LoadMap.Word

def limit (bits : Nat) : Nat := 1 <<< bits

end LoadMap.Word
