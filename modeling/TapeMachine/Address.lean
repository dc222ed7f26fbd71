namespace TapeMachine

/-- Addresses, sizes and counts are below 2 to the 64. -/
def addressLimit : Nat := 18446744073709551616

end TapeMachine
